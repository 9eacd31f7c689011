import Stencil.Proofs.IndentedLines
import Stencil.Proofs.LiteralScanning
import Stencil.Proofs.Literals

/-! The keys of loops. Each element that stands in a loop by itself is opened with a key of the iteration,
which has the ordinal of the element behind it where the loop has several children. Elements inside of
these have no such key, unless they are in a further loop. So the keys of a loop tell both the iterations
and the children apart. -/

namespace Stencil.Proofs.LoopKeys
open Text IndentedLines Literals LiteralScanning

mutual

/-- The elements of a node with their attributes, in document order, without those in loops inside of it.
An element that carries a loop is in that loop. -/
def unlooped : Node → List (String × List Attribute)
  | .text _ => []
  | .script _ _ => []
  | .loop _ _ _ => []
  | .element _ _ _ (some _) _ _ => []
  | .element tag attributes children none _ _ => (tag, attributes) :: unloopedAll children

def unloopedAll : List Node → List (String × List Attribute)
  | [] => []
  | node :: rest => unlooped node ++ unloopedAll rest

end

/-- The elements of the children of a loop, from an ordinal on. The one that is a child itself, if there is
one, has the ordinal of the child; those inside of it have none. -/
def standings (ordinal : Nat) : List Node → List (Option Nat × String × List Attribute)
  | [] => []
  | node :: rest =>
    (match unlooped node with
      | [] => []
      | own :: inside => (some ordinal, own) :: inside.map (none, ·)) ++ standings (ordinal + 1) rest

/-- The arguments of the statements that open elements inside of this many loops. So many loops are open in
front of the lines. -/
def callsWithin (target : Nat) : Nat → List Line → List (List String)
  | _, [] => []
  | level, ⟨_, .openLoop⟩ :: rest => callsWithin target (level + 1) rest
  | level, ⟨_, .closeLoop⟩ :: rest => callsWithin target (level - 1) rest
  | level, ⟨_, .openElement tag key statics⟩ :: rest =>
    if level = target then Statement.arguments tag key statics :: callsWithin target level rest
    else callsWithin target level rest
  | level, _ :: rest => callsWithin target level rest

/-- Lines that close all loops they open and make these calls outside of them. -/
private def Makes (calls : List (List String)) (lines : List Line) : Prop :=
  ∀ target level rest, target ≤ level →
    callsWithin target level (lines ++ rest) = (if level = target then calls else []) ++ callsWithin target level rest

private theorem makes_nil : Makes [] [] := by
  intro target level rest _
  simp

private theorem Makes.append {first second : List Line} {calls others : List (List String)} (one : Makes calls first)
    (other : Makes others second) : Makes (calls ++ others) (first ++ second) := by
  intro target level rest inside
  rw [List.append_assoc, one target level _ inside, other target level _ inside, ← List.append_assoc]
  split <;> rfl

private theorem makes_openElement (depth : Nat) (tag : String) (key : Option Key) (statics : Option String) :
    Makes [Statement.arguments tag key statics] [⟨depth, .openElement tag key statics⟩] := by
  intro target level rest _
  rw [List.singleton_append, callsWithin]
  split <;> rfl

/-- Statements that open neither an element nor a loop and close no loop. -/
private def isIdle : Statement → Bool
  | .openElement .. => false
  | .openLoop => false
  | .closeLoop => false
  | _ => true

private theorem makes_idle {statement : Statement} (idle : isIdle statement = true) (depth : Nat) :
    Makes [] [⟨depth, statement⟩] := by
  intro target level rest _
  cases statement with
  | openElement tag key statics => cases idle
  | openLoop => cases idle
  | closeLoop => cases idle
  | closeElement _ | text _ | openGuard _ | closeGuard | setTarget _ | bindItem _ | bindKey _ _ | script _ =>
    simp [callsWithin]

private theorem guarded_makes {calls : List (List String)} {body : List Line} (inside : Makes calls body) (depth : Nat)
    (guard : Option Guard) : Makes calls (guarded depth guard body) := by
  cases guard with
  | none => exact inside
  | some guard =>
    have opened : Makes [] [⟨depth, .openGuard guard.condition⟩] := makes_idle rfl depth
    have closed : Makes [] [⟨depth, .closeGuard⟩] := makes_idle rfl depth
    simpa [guarded] using (opened.append inside).append closed

private theorem looped_makes {calls : List (List String)} {body : List Line} (inside : Makes calls body) (token : String)
    (depth : Nat) (spec : LoopSpec) : Makes [] (looped token depth spec body) := by
  intro target level rest below
  have within := inside target (level + 1) (⟨depth + 1, .closeLoop⟩ :: ⟨depth, .closeGuard⟩ :: rest) (by omega)
  have apart : level + 1 ≠ target := by omega
  simp only [apart, ite_false, List.nil_append, callsWithin, Nat.add_sub_cancel] at within
  simpa [looped, callsWithin] using within

private theorem looped_calls {calls : List (List String)} {body : List Line} (inside : Makes calls body) (token : String)
    (depth : Nat) (spec : LoopSpec) : callsWithin 1 0 (looped token depth spec body) = calls := by
  have within := inside 1 1 [⟨depth + 1, .closeLoop⟩, ⟨depth, .closeGuard⟩] (Nat.le_refl 1)
  simpa [looped, callsWithin] using within

/-- The call that opens an element has the literal of its tag, and behind that the key it is to have. -/
private def Called (token : String) (element : Option Key × String × List Attribute) (call : List String) : Prop :=
  call.head? = some (quoted element.2.1) ∧ call[1]? = (keyArgument token element.1 element.2.2).map Key.text

private theorem called_arguments (token tag : String) (key : Option Key) (attributes : List Attribute)
    (table : HoistTable) :
    Called token (key, tag, attributes)
      (Statement.arguments tag (keyArgument token key attributes) (hoistAttributes table attributes).1) := by
  refine ⟨rfl, ?_⟩
  cases key with
  | some key => rfl
  | none =>
    cases attributes with
    | nil => rfl
    | cons item rest => rfl

/-- The elements of a node outside of loops, the node itself with the key that it is given. -/
private def keyed (key : Option Key) (node : Node) : List (Option Key × String × List Attribute) :=
  match unlooped node with
  | [] => []
  | own :: inside => (key, own) :: inside.map (none, ·)

private theorem keyed_none (node : Node) : keyed none node = (unlooped node).map (none, ·) := by
  unfold keyed
  split
  next bare => rw [bare, List.map_nil]
  next own inside listed => rw [listed, List.map_cons]

mutual

private theorem lines_make (token : String) (node : Node) (depth : Nat) (key : Option Key) (table : HoistTable) :
    ∃ calls, Makes calls (node.lines token depth key table).1 ∧ List.Forall₂ (Called token) (keyed key node) calls := by
  match node with
  | .text content => exact ⟨[], makes_idle rfl depth, .nil⟩
  | .script code true => exact ⟨[], makes_nil, .nil⟩
  | .script code false => exact ⟨[], makes_idle rfl depth, .nil⟩
  | .loop spec children span =>
    obtain ⟨calls, made, _⟩ := children_make token children (depth + 2) children.length 1 table
    exact ⟨[], looped_makes made token depth spec, .nil⟩
  | .element tag attributes children loop guard span =>
    have element (outer inner : Nat) (key : Option Key) : ∃ calls,
        Makes calls (guarded outer guard
          (⟨inner, .openElement tag (keyArgument token key attributes) (hoistAttributes table attributes).1⟩ ::
            (forestLines token (inner + 1) (hoistAttributes table attributes).2 children).1 ++
            [⟨inner, .closeElement tag⟩])) ∧
          List.Forall₂ (Called token) ((key, tag, attributes) :: (unloopedAll children).map (none, ·)) calls := by
      obtain ⟨calls, made, called⟩ := forest_make token children (inner + 1) (hoistAttributes table attributes).2
      have opened := makes_openElement inner tag (keyArgument token key attributes) (hoistAttributes table attributes).1
      have closed : Makes [] [⟨inner, .closeElement tag⟩] := makes_idle rfl inner
      refine ⟨_, guarded_makes ((opened.append made).append closed) outer guard, ?_⟩
      rw [List.append_nil]
      exact .cons (called_arguments token tag key attributes table) called
    match loop with
    | none => exact element depth _ key
    | some spec =>
      obtain ⟨calls, made, _⟩ := element (depth + 2) _ (some .iteration)
      exact ⟨[], looped_makes made token depth spec, .nil⟩
termination_by structural node

private theorem forest_make (token : String) (nodes : List Node) (depth : Nat) (table : HoistTable) :
    ∃ calls, Makes calls (forestLines token depth table nodes).1 ∧
      List.Forall₂ (Called token) ((unloopedAll nodes).map (none, ·)) calls := by
  match nodes with
  | [] => exact ⟨[], makes_nil, .nil⟩
  | node :: rest =>
    obtain ⟨calls, made, called⟩ := lines_make token node depth none table
    obtain ⟨others, madeLater, calledLater⟩ := forest_make token rest depth (node.lines token depth none table).2
    refine ⟨calls ++ others, made.append madeLater, ?_⟩
    rw [unloopedAll, List.map_append, ← keyed_none]
    exact List.rel_append called calledLater
termination_by structural nodes

private theorem children_make (token : String) (nodes : List Node) (depth count ordinal : Nat) (table : HoistTable) :
    ∃ calls, Makes calls (childLines token depth count ordinal table nodes).1 ∧
      List.Forall₂ (Called token)
        ((standings ordinal nodes).map fun element => (element.1.map (Key.ofChild count), element.2)) calls := by
  match nodes with
  | [] => exact ⟨[], makes_nil, .nil⟩
  | node :: rest =>
    obtain ⟨calls, made, called⟩ := lines_make token node depth (some (.ofChild count ordinal)) table
    obtain ⟨others, madeLater, calledLater⟩ := children_make token rest depth count (ordinal + 1)
      (node.lines token depth (some (.ofChild count ordinal)) table).2
    refine ⟨calls ++ others, made.append madeLater, ?_⟩
    rw [standings, List.map_append]
    refine List.rel_append ?_ calledLater
    unfold keyed at called
    split at called
    next bare => simpa only [bare, List.map_nil] using called
    next own inside listed =>
      simpa only [listed, List.map_cons, List.map_map, Function.comp_def, Option.map_some, Option.map_none] using called
termination_by structural nodes

end

/-- The key argument of the child of a loop with this ordinal. -/
def childKey (count ordinal : Nat) : String :=
  if count = 1 then "$key" else "$key + \"_" ++ ordinal.repr ++ "\""

private theorem ofChild_text (count ordinal : Nat) : (Key.ofChild count ordinal).text = childKey count ordinal := by
  unfold Key.ofChild childKey
  split <;> rfl

/-- The value of a key argument where `$key` stands for this text: an argument is `$key`, or `$key` and a
literal, or a literal alone. -/
def keyValue? (current argument : String) : Option String :=
  match argument.toList with
  | '$' :: 'k' :: 'e' :: 'y' :: [] => some current
  | '$' :: 'k' :: 'e' :: 'y' :: ' ' :: '+' :: ' ' :: rest =>
    match literal? script rest with
    | some (text, []) => some (current ++ text)
    | _ => none
  | chars =>
    match literal? script chars with
    | some (text, []) => some text
    | _ => none

private theorem digit_of_repr {number : Nat} {c : Char} (member : c ∈ number.repr.toList) : c.isDigit = true := by
  rw [Nat.toList_repr] at member
  exact Nat.isDigit_of_mem_toDigits (by decide) (by decide) member

private theorem reads_digits (number : Nat) : Reads script number.repr.toList number.repr.toList := by
  have plain : ∀ chars : List Char, (∀ c ∈ chars, c.isDigit = true) → Reads script chars chars := by
    intro chars
    induction chars with
    | nil => exact fun _ => reads_nil
    | cons c chars ih =>
      intro digits
      obtain ⟨digit, others⟩ := List.forall_mem_cons.mp digits
      have other : ∀ d : Char, d.isDigit = false → c ≠ d := by
        rintro d ordinary rfl
        rw [digit] at ordinary
        cases ordinary
      have own : Reads script [c] [c] := by
        apply reads_plain
        · simp [script, other '\n' rfl, other '\r' rfl]
        · exact other '"' rfl
        · exact other '\\' rfl
      exact own.append (ih others)
  exact plain _ fun c member => digit_of_repr member

private theorem keyValue_childKey (current : String) (count ordinal : Nat) :
    keyValue? current (childKey count ordinal) =
      some (if count = 1 then current else current ++ "_" ++ ordinal.repr) := by
  unfold childKey
  split
  next => simp [keyValue?]
  next =>
    have underscore : Reads script ['_'] ['_'] := reads_plain rfl (by decide) (by decide)
    have read := (underscore.append (reads_digits ordinal)).literal []
    have chars : ("$key + \"_" ++ ordinal.repr ++ "\"").toList =
        '$' :: 'k' :: 'e' :: 'y' :: ' ' :: '+' :: ' ' :: '"' :: (['_'] ++ ordinal.repr.toList ++ '"' :: []) := by
      simp
    rw [keyValue?, chars]
    simp only [read, Option.some.injEq]
    apply String.toList_inj.mp
    simp

private theorem numbered_inj {first second : String} {number other : Nat}
    (same : first ++ "_" ++ number.repr = second ++ "_" ++ other.repr) : first = second ∧ number = other := by
  have chars : first.toList ++ '_' :: number.repr.toList = second.toList ++ '_' :: other.repr.toList := by
    simpa using congrArg String.toList same
  have reversed : number.repr.toList.reverse ++ '_' :: first.toList.reverse =
      other.repr.toList.reverse ++ '_' :: second.toList.reverse := by
    simpa using congrArg List.reverse chars
  have taken (number : Nat) (rest : List Char) :
      (number.repr.toList.reverse ++ '_' :: rest).takeWhile Char.isDigit = number.repr.toList.reverse := by
    have digits : ∀ c ∈ number.repr.toList.reverse, c.isDigit = true := by
      intro c member
      exact digit_of_repr (List.mem_reverse.mp member)
    rw [List.takeWhile_append_of_pos digits, List.takeWhile_cons_of_neg (by decide), List.append_nil]
  have digits : number.repr.toList.reverse = other.repr.toList.reverse := by
    rw [← taken number first.toList.reverse, reversed, taken]
  rw [digits, List.append_cancel_left_eq, List.cons.injEq] at reversed
  obtain ⟨_, rest⟩ := reversed
  refine ⟨String.toList_inj.mp (List.reverse_inj.mp rest), ?_⟩
  have equal : Nat.toDigits 10 number = Nat.toDigits 10 other := by
    simpa [Nat.toList_repr] using digits
  rw [← @Nat.ofDigitChars_ten_toDigits number, ← @Nat.ofDigitChars_ten_toDigits other, equal]

/-- The call that opens an element of a loop with so many children. An element inside of a child has no key
but the token, and that only if it has attributes. -/
structure Opens (token : String) (count : Nat) (element : Option Nat × String × List Attribute)
    (call : List String) : Prop where
  tag : call.head? = some (quoted element.2.1)
  child : ∀ ordinal, element.1 = some ordinal → call[1]? = some (childKey count ordinal)
  inside : element.1 = none → call[1]? = if element.2.2.isEmpty then none else some (quoted token)
  keyless : element.1 = none → ∀ argument ∈ call[1]?, ¬ "$key".toList <+: argument.toList

private theorem quoted_keyless (text : String) : ¬ "$key".toList <+: (quoted text).toList := by
  intro starts
  obtain ⟨rest, same⟩ := starts
  rw [quoted_toList, quotedChars] at same
  simp at same

private theorem opens_of_called {token : String} {count : Nat} {element : Option Nat × String × List Attribute}
    {call : List String} (called : Called token (element.1.map (Key.ofChild count), element.2) call) :
    Opens token count element call := by
  obtain ⟨own, tag, attributes⟩ := element
  obtain ⟨first, second⟩ := called
  cases own with
  | some ordinal =>
    refine ⟨first, ?_, nofun, nofun⟩
    intro ordinal' same
    cases same
    rw [second, ← ofChild_text]
    rfl
  | none =>
    have bare : call[1]? = if attributes.isEmpty then none else some (quoted token) := by
      rw [second]
      cases attributes with
      | nil => rfl
      | cons item rest => rfl
    refine ⟨first, nofun, fun _ => bare, ?_⟩
    intro _ argument member
    rw [bare] at member
    split at member
    · cases member
    · cases member
      exact quoted_keyless token

/-- What the key arguments of a loop with so many children come to. The key of an iteration is the token, an
underscore, and any text. -/
structure TellsApart (token : String) (count : Nat) : Prop where
  value : ∀ current ordinal, keyValue? current (childKey count ordinal) =
    some (if count = 1 then current else current ++ "_" ++ ordinal.repr)
  apart : ∀ iteration other ordinal ordinal', 1 ≤ ordinal → ordinal ≤ count → 1 ≤ ordinal' → ordinal' ≤ count →
    keyValue? (token ++ "_" ++ iteration) (childKey count ordinal) =
      keyValue? (token ++ "_" ++ other) (childKey count ordinal') →
    iteration = other ∧ ordinal = ordinal'

private theorem children_apart (token : String) (count : Nat) : TellsApart token count where
  value current ordinal := keyValue_childKey current count ordinal
  apart := by
    intro iteration other ordinal ordinal' first last first' last' same
    rw [keyValue_childKey, keyValue_childKey, Option.some.injEq] at same
    split at same
    next alone =>
      have text : iteration = other := by
        apply String.toList_inj.mp
        simpa using congrArg String.toList same
      exact ⟨text, by omega⟩
    next =>
      obtain ⟨front, number⟩ := numbered_inj same
      have text : iteration = other := by
        apply String.toList_inj.mp
        simpa using congrArg String.toList front
      exact ⟨text, number⟩

/-- Wherever a loop stands and whatever its children are, the elements in it are opened with the keys that
they are to have, in document order, and the keys of its children differ. -/
theorem loop_keyed (token : String) (printer : Printer) (key : Option Key) (table : HoistTable) (spec : LoopSpec)
    (children : List Node) (span : Span) :
    ∃ lines, printer.run ((Node.loop spec children span).actions token key table).1 =
        { printer with lines := printer.lines ++ lines } ∧
      List.Forall₂ (Opens token children.length) (standings 1 children) (callsWithin 1 0 lines.toList) ∧
      TellsApart token children.length := by
  obtain ⟨calls, made, called⟩ := children_make token children (printer.level + 2) children.length 1 table
  have printed := (actions_agree (.loop spec children span) token printer.level key table).1.run printer.lines
  refine ⟨_, printed, ?_, children_apart token _⟩
  have own : callsWithin 1 0 ((Node.loop spec children span).lines token printer.level key table).1 = calls :=
    looped_calls made token printer.level spec
  rw [List.toList_toArray, own]
  exact (List.forall₂_map_left_iff.mp called).imp fun element call => opens_of_called

/-- A text takes an ordinal but no key, a guard changes nothing, and a nested loop has keys of its own. -/
example : callsWithin 1 0 (Printer.run {} ((Node.loop ⟨"x", none, "xs"⟩
    [.text "a", .element "b" [] [.element "i" [⟨"id", "x"⟩] [] none none .none] none (some ⟨"ok", .none⟩) .none,
      .loop ⟨"y", none, "ys"⟩ [.element "u" [] [] none none .none] .none] .none).actions "t" none .empty).1).lines.toList =
    [["\"b\"", "$key + \"_2\""], ["\"i\"", "\"t\"", "hoisted1"]] := by decide

end Stencil.Proofs.LoopKeys
