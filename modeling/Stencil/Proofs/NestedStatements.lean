import Stencil.Proofs.IndentedLines
import Stencil.Proofs.OpeningCalls

/-! Generated statements are nested. Read one after the other as text, the statements of a forest close
each block that they open, the innermost one first, and every statement is indented by the blocks that are
open around it. The printer lowers its level only where it has been raised before. -/

namespace Stencil.Proofs.NestedStatements
open Text Literals IndentedLines OpeningCalls

/-- What a statement opens and a later one closes. Elements are told apart by the literals of their tags. -/
inductive Block where
  | element (literal : List Char)
  | guard
  | loop
deriving DecidableEq

/-- What a statement does to the blocks around it. -/
inductive Role where
  | opens (block : Block)
  | closes (block : Block)
  | plain
deriving DecidableEq

/-- The rest of a literal, up to the quote that closes it. -/
def toQuote : List Char → List Char
  | [] => []
  | '\\' :: c :: rest => '\\' :: c :: toQuote rest
  | '"' :: _ => ['"']
  | c :: rest => c :: toQuote rest

def literalOf : List Char → List Char
  | '"' :: rest => '"' :: toQuote rest
  | _ => []

def encloses (front back : String) (code : List Char) : Bool :=
  front.toList.isPrefixOf code && back.toList.isSuffixOf (code.drop front.length)

def roleOf (code : List Char) : Role :=
  if encloses "elementOpen(" ")" code then .opens (.element (literalOf (code.drop "elementOpen(".length)))
  else if encloses "elementClose(" ")" code then .closes (.element (literalOf (code.drop "elementClose(".length)))
  else if encloses "if (" ") \x7b" code then .opens .guard
  else if encloses ";(" ".forEach(function($value, $item, $target) \x7b" code then .opens .loop
  else if code = "\x7d".toList then .closes .guard
  else if code = "\x7d, this)".toList then .closes .loop
  else .plain

/-- The role of a statement, whatever its indentation. -/
def role (statement : String) : Role := roleOf (statement.toList.dropWhile (· = ' '))

private theorem toQuote_plain {chars : List Char} (plain : ∀ c ∈ chars, c ∉ ['"', '\\']) (rest : List Char) :
    toQuote (chars ++ rest) = chars ++ toQuote rest := by
  induction chars with
  | nil => rfl
  | cons c chars ih =>
    obtain ⟨here, others⟩ := List.forall_mem_cons.mp plain
    simp only [List.mem_cons, List.not_mem_nil, or_false, not_or] at here
    rw [List.cons_append, toQuote, ih others, List.cons_append]
    · exact fun _ _ same _ => here.2 same
    · exact here.1

private theorem toQuote_quotedChar (c : Char) (rest : List Char) :
    toQuote (quotedChar c ++ rest) = quotedChar c ++ toQuote rest := by
  by_cases escaped : c ∈ escapes
  · obtain ⟨code, more, written, plain⟩ := quotedChar_escaped c escaped
    simp only [written, List.cons_append, toQuote, toQuote_plain plain]
  · rw [quotedChar_kept escaped]
    apply toQuote_plain
    intro d member special
    rw [List.mem_singleton.mp member] at special
    simp only [List.mem_cons, List.not_mem_nil, or_false] at special
    rcases special with rfl | rfl
    · exact escaped (by decide)
    · exact escaped (by decide)

private theorem literalOf_quoted (text rest : List Char) : literalOf (quotedChars text ++ rest) = quotedChars text := by
  have inside : toQuote (text.flatMap quotedChar ++ '"' :: rest) = text.flatMap quotedChar ++ ['"'] := by
    induction text with
    | nil => rfl
    | cons c text ih => rw [List.flatMap_cons, List.append_assoc, toQuote_quotedChar, ih, List.append_assoc]
  simp [quotedChars, literalOf, inside]

private theorem drop_front (front : String) (rest : List Char) : (front.toList ++ rest).drop front.length = rest := by
  rw [← String.length_toList, List.drop_left]

private theorem encloses_between (front back : String) (inside : List Char) :
    encloses front back (front.toList ++ (inside ++ back.toList)) = true := by
  rw [encloses, drop_front, Bool.and_eq_true, List.isPrefixOf_iff_prefix, List.isSuffixOf_iff_suffix]
  exact ⟨List.prefix_append _ _, List.suffix_append _ _⟩

private theorem not_encloses {front back : String} {code : List Char} (apart : front.toList.isPrefixOf code = false) :
    ¬ encloses front back code = true := by simp [encloses, apart]

private theorem roleOf_openElement (tag : String) (key : Option Key) (statics : Option String) :
    roleOf (Statement.openElement tag key statics).source.toList = .opens (.element (quotedChars tag.toList)) := by
  obtain ⟨arguments, source⟩ : ∃ arguments, (Statement.openElement tag key statics).source.toList =
      "elementOpen(".toList ++ (quotedChars tag.toList ++ arguments ++ ")".toList) := by
    refine ⟨((key.map Key.text).toList ++ statics.toList).flatMap fun text => ", ".toList ++ text.toList, ?_⟩
    simp [Statement.source_openElement, Statement.arguments, intercalate_cons, quoted_toList, List.flatMap_map]
  have own := encloses_between "elementOpen(" ")" (quotedChars tag.toList ++ arguments)
  rw [source, roleOf, if_pos own, drop_front, List.append_assoc, literalOf_quoted]

private theorem roleOf_closeElement (tag : String) :
    roleOf (Statement.closeElement tag).source.toList = .closes (.element (quotedChars tag.toList)) := by
  have source : (Statement.closeElement tag).source.toList =
      "elementClose(".toList ++ (quotedChars tag.toList ++ ")".toList) := by
    simp [Statement.source_closeElement, quoted_toList]
  have own := encloses_between "elementClose(" ")" (quotedChars tag.toList)
  rw [source, roleOf, if_neg (not_encloses (by simp [List.isPrefixOf])), if_pos own, drop_front, literalOf_quoted]

private theorem roleOf_openGuard (condition : String) :
    roleOf (Statement.openGuard condition).source.toList = .opens .guard := by
  have source : (Statement.openGuard condition).source.toList =
      "if (".toList ++ (condition.toList ++ ") \x7b".toList) := by
    simp [Statement.source_openGuard]
  have own := encloses_between "if (" ") \x7b" condition.toList
  rw [source, roleOf, if_neg (not_encloses (by simp [List.isPrefixOf])),
    if_neg (not_encloses (by simp [List.isPrefixOf])), if_pos own]

private def purpose : Statement → Option Role
  | .openElement tag _ _ => some (.opens (.element (quotedChars tag.toList)))
  | .closeElement tag => some (.closes (.element (quotedChars tag.toList)))
  | .openGuard _ => some (.opens .guard)
  | .closeGuard => some (.closes .guard)
  | .openLoop => some (.opens .loop)
  | .closeLoop => some (.closes .loop)
  | .text _ | .setTarget _ | .bindItem _ | .bindKey _ _ => some .plain
  | .script _ => none

private theorem source_read {statement : Statement} {role : Role} (purposed : purpose statement = some role) :
    roleOf statement.source.toList = role ∧ ∃ c rest, statement.source.toList = c :: rest ∧ c ≠ ' ' := by
  cases statement with
  | script code => cases purposed
  | openElement tag key statics =>
    cases purposed
    exact ⟨roleOf_openElement tag key statics, by simp [Statement.source_openElement]⟩
  | closeElement tag =>
    cases purposed
    exact ⟨roleOf_closeElement tag, by simp [Statement.source_closeElement]⟩
  | openGuard condition =>
    cases purposed
    exact ⟨roleOf_openGuard condition, by simp [Statement.source_openGuard]⟩
  | closeGuard =>
    cases purposed
    exact ⟨by decide, '\x7d', [], rfl, by decide⟩
  | openLoop =>
    cases purposed
    exact ⟨by decide, ';', _, rfl, by decide⟩
  | closeLoop =>
    cases purposed
    exact ⟨by decide, '\x7d', _, rfl, by decide⟩
  | text content =>
    cases purposed
    simp [Statement.source_text, roleOf, encloses, List.isPrefixOf]
  | setTarget iterable =>
    cases purposed
    simp [Statement.source_setTarget, roleOf, encloses, List.isPrefixOf]
  | bindItem item =>
    cases purposed
    simp [Statement.source_bindItem, roleOf, encloses, List.isPrefixOf]
  | bindKey token key =>
    cases purposed
    simp [Statement.source_bindKey, roleOf, encloses, List.isPrefixOf]

/-- The stack of open blocks behind a statement in this role, innermost first. Only the block that was
opened last may be closed. -/
def turn (stack : List Block) : Role → Option (List Block)
  | .opens block => some (block :: stack)
  | .closes block =>
    match stack with
    | [] => none
    | top :: below => if top = block then some below else none
  | .plain => some stack

def step (stack : List Block) (statement : String) : Option (List Block) := turn stack (role statement)

def scan (stack : List Block) (statements : List String) : Option (List Block) := statements.foldlM step stack

/-- The number of blocks around a statement, which does not count the one that it opens or closes. -/
def around (stack next : List Block) : Role → Nat
  | .closes _ => next.length
  | _ => stack.length

/-- Two spaces for every level, and then something else. -/
def Indented (level : Nat) (statement : String) : Prop :=
  ∃ c rest, c ≠ ' ' ∧ statement.toList = List.replicate (2 * level) ' ' ++ c :: rest

/-- Statements that lead from one stack to another, each of them indented by the blocks around it. -/
private inductive Walks : List Block → List String → List Block → Prop where
  | nil {stack} : Walks stack [] stack
  | cons {stack statement next rest last} (steps : step stack statement = some next)
      (indented : Indented (around stack next (role statement)) statement) (later : Walks next rest last) :
      Walks stack (statement :: rest) last

private theorem Walks.append {first second : List String} {stack between last : List Block}
    (one : Walks stack first between) (other : Walks between second last) : Walks stack (first ++ second) last := by
  induction one with
  | nil => exact other
  | cons steps indented _ ih => exact .cons steps indented (ih other)

private theorem walks_line {statement : Statement} {own : Role} (purposed : purpose statement = some own)
    {stack next : List Block} (turned : turn stack own = some next) :
    Walks stack [Line.text ⟨around stack next own, statement⟩] next := by
  obtain ⟨read, c, rest, source, visible⟩ := source_read purposed
  have unindented := @line_unindented (around stack next own) statement (by simpa [source] using visible)
  have same : role (Line.text ⟨around stack next own, statement⟩) = own := by rw [role, unindented, read]
  refine .cons (by rw [step, same, turned]) ?_ .nil
  rw [same]
  exact ⟨c, rest, visible, by rw [Line.text, String.toList_append, String.toList_ofList, source]⟩

private def Keeps (stack : List Block) (lines : List Line) : Prop := Walks stack (lines.map Line.text) stack

private theorem keeps_nil (stack : List Block) : Keeps stack [] := .nil

private theorem Keeps.append {stack : List Block} {first second : List Line} (one : Keeps stack first)
    (other : Keeps stack second) : Keeps stack (first ++ second) := by
  unfold Keeps
  rw [List.map_append]
  exact Walks.append one other

private theorem keeps_plain {statement : Statement} (plain : purpose statement = some .plain) (stack : List Block) :
    Keeps stack [⟨stack.length, statement⟩] := walks_line plain rfl

private theorem keeps_block {opening closing : Statement} {block : Block}
    (opens : purpose opening = some (.opens block)) (closes : purpose closing = some (.closes block))
    {stack : List Block} {body : List Line} (inside : Keeps (block :: stack) body) :
    Keeps stack (⟨stack.length, opening⟩ :: body ++ [⟨stack.length, closing⟩]) := by
  have first : Walks stack _ (block :: stack) := walks_line opens rfl
  have last : Walks (block :: stack) _ stack := walks_line closes (if_pos rfl)
  simpa [Keeps, around] using (first.append inside).append last

private def behindGuard (stack : List Block) : Option Guard → List Block
  | none => stack
  | some _ => .guard :: stack

private theorem guarded_keeps {stack : List Block} (guard : Option Guard) {body : List Line}
    (inside : Keeps (behindGuard stack guard) body) : Keeps stack (guarded stack.length guard body) := by
  cases guard with
  | none => exact inside
  | some guard => exact keeps_block rfl rfl inside

private theorem looped_keeps (token : String) {stack : List Block} (spec : LoopSpec) {body : List Line}
    (inside : Keeps (.loop :: .guard :: stack) body) : Keeps stack (looped token stack.length spec body) := by
  have target : Keeps stack [⟨stack.length, .setTarget spec.iterable⟩] := keeps_plain rfl stack
  have item : Keeps (.loop :: .guard :: stack) [⟨stack.length + 2, .bindItem spec.item⟩] := keeps_plain rfl _
  have key : Keeps (.loop :: .guard :: stack) [⟨stack.length + 2, .bindKey token spec.key⟩] := keeps_plain rfl _
  have loop := @keeps_block .openLoop .closeLoop .loop rfl rfl (.guard :: stack) _ (item.append (key.append inside))
  have guard := @keeps_block (.openGuard targetName) .closeGuard .guard rfl rfl stack _ loop
  simpa [looped] using target.append guard

mutual

/-- No script stands among the statements; one that is lifted out of them may. -/
def Scriptless : Node → Prop
  | .text _ => True
  | .script _ hoisted => hoisted = true
  | .loop _ children _ => ScriptlessAll children
  | .element _ _ children _ _ _ => ScriptlessAll children

def ScriptlessAll : List Node → Prop
  | [] => True
  | node :: rest => Scriptless node ∧ ScriptlessAll rest

end

mutual

private theorem lines_keep {token : String} (node : Node) (scriptless : Scriptless node) {depth : Nat} {key : Option Key}
    {table : HoistTable} {stack : List Block} (level : depth = stack.length) :
    Keeps stack (node.lines token depth key table).1 := by
  subst level
  match node with
  | .text content => exact keeps_plain rfl stack
  | .script code hoisted =>
    have lifted : hoisted = true := scriptless
    simp only [Node.lines, lifted, ite_true]
    exact keeps_nil stack
  | .loop spec children span => exact looped_keeps token spec (children_keep children scriptless rfl)
  | .element tag attributes children loop guard span =>
    have element (outer : List Block) (key' : Option Key) : Keeps outer (guarded outer.length guard
        (⟨(behindGuard outer guard).length, .openElement tag (keyArgument token key' attributes)
            (hoistAttributes table attributes).1⟩ ::
          (forestLines token ((behindGuard outer guard).length + 1) (hoistAttributes table attributes).2 children).1 ++
          [⟨(behindGuard outer guard).length, .closeElement tag⟩])) :=
      guarded_keeps guard (keeps_block rfl rfl (forest_keep children scriptless rfl))
    cases loop with
    | none =>
      cases guard with
      | none => exact element stack key
      | some guard => exact element stack key
    | some spec =>
      cases guard with
      | none => exact looped_keeps token spec (element (.loop :: .guard :: stack) (some .iteration))
      | some guard => exact looped_keeps token spec (element (.loop :: .guard :: stack) (some .iteration))
termination_by structural node

private theorem forest_keep {token : String} (nodes : List Node) (scriptless : ScriptlessAll nodes) {depth : Nat}
    {table : HoistTable} {stack : List Block} (level : depth = stack.length) :
    Keeps stack (forestLines token depth table nodes).1 := by
  match nodes with
  | [] => exact keeps_nil stack
  | node :: rest => exact (lines_keep node scriptless.1 level).append (forest_keep rest scriptless.2 level)
termination_by structural nodes

private theorem children_keep {token : String} (nodes : List Node) (scriptless : ScriptlessAll nodes)
    {depth count ordinal : Nat} {table : HoistTable} {stack : List Block} (level : depth = stack.length) :
    Keeps stack (childLines token depth count ordinal table nodes).1 := by
  match nodes with
  | [] => exact keeps_nil stack
  | node :: rest => exact (lines_keep node scriptless.1 level).append (children_keep rest scriptless.2 level)
termination_by structural nodes

end

private theorem Walks.scan {stack last : List Block} {statements : List String} (walks : Walks stack statements last) :
    scan stack statements = some last := by
  induction walks with
  | nil => rfl
  | cons steps _ _ ih =>
    rw [NestedStatements.scan, List.foldlM_cons, steps]
    exact ih

private theorem Walks.split {before behind : List String} {statement : String} {stack last : List Block}
    (walks : Walks stack (before ++ statement :: behind) last) :
    ∃ between next, Walks stack before between ∧ step between statement = some next ∧
      Indented (around between next (role statement)) statement := by
  induction before generalizing stack with
  | nil =>
    cases walks with
    | cons steps indented _ => exact ⟨stack, _, .nil, steps, indented⟩
  | cons first before ih =>
    cases walks with
    | cons steps indented later =>
      obtain ⟨between, next, walks', stands⟩ := ih later
      exact ⟨between, next, .cons steps indented walks', stands⟩

/-- A statement as it stands behind others, between the stack that they leave and the stack behind it. -/
structure Stands (before : List String) (statement : String) (stack next : List Block) : Prop where
  scanned : scan [] before = some stack
  steps : step stack statement = some next
  indented : Indented (around stack next (role statement)) statement

/-- What the printer does to its level, from zero on. -/
structure Leveled (actions : List Action) : Prop where
  raised : ∀ before behind, actions = before ++ .dedent :: behind → 0 < (Printer.run {} before).level
  restored : (Printer.run {} actions).level = 0

private theorem forest_leveled (token : String) (table : HoistTable) (forest : List Node) :
    Leveled (forestActions token table forest).1 where
  raised before behind same := by
    have printed := (forestActions_agree forest token 0 table).1
    rw [same] at printed
    exact printed.raised #[]
  restored := by rw [forest_printed]

/-- The statements of a forest without scripts among them open and close blocks in order, from no open block
to none, and each one is indented by the blocks around it. -/
theorem generate_nested (token : String) (table : HoistTable) (forest : List Node) (scriptless : ScriptlessAll forest) :
    scan [] (generate token table forest).1 = some [] ∧
      (∀ before statement behind, (generate token table forest).1 = before ++ statement :: behind →
        ∃ stack next, Stands before statement stack next) ∧
      Leveled (forestActions token table forest).1 := by
  have walks : Walks [] (generate token table forest).1 [] := by
    rw [generate_lines]
    exact forest_keep forest scriptless rfl
  refine ⟨walks.scan, ?_, forest_leveled token table forest⟩
  intro before statement behind same
  rw [same] at walks
  obtain ⟨stack, next, front, steps, indented⟩ := walks.split
  exact ⟨stack, next, front.scan, steps, indented⟩

/-- A guarded element in a loop, with a text that reads like a guard. -/
def guardedItem : List Node :=
  [.loop ⟨"x", none, "xs"⟩ [.element "li" [] [.text "if (x) \x7b"] none (some ⟨"ok", .none⟩) .none] .none]

theorem generate_nested_guarded :
    scan [] (generate "k" .empty guardedItem).1 = some [] ∧
      (∃ stack next, Stands ((generate "k" .empty guardedItem).1.take 8) "      elementClose(\"li\")" stack next) ∧
      0 < (Printer.run {} ((forestActions "k" .empty guardedItem).1.take 16)).level := by
  obtain ⟨nested, stands, leveled⟩ :=
    generate_nested "k" .empty guardedItem (by simp [guardedItem, ScriptlessAll, Scriptless])
  exact ⟨nested, stands _ _ ((generate "k" .empty guardedItem).1.drop 9) (by decide +kernel),
    leveled.raised _ ((forestActions "k" .empty guardedItem).1.drop 17) (by decide +kernel)⟩

end Stencil.Proofs.NestedStatements
