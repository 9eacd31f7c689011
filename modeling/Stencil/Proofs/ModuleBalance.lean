import Stencil.Proofs.BalancedCode
import Stencil.Proofs.CompiledModule
import Stencil.Proofs.HoistInvariant

/-! Generated modules are balanced. Every line has a fixed effect on the brackets that are open
around it, whatever it was made from, and the lines of a node undo one another's effects. -/

namespace Stencil.Proofs.ModuleBalance
open Directive Text Literals TemplateReading BalancedCode CompiledModule HoistInvariant

private theorem neutral_flatMap {α : Type} {items : List α} {written : α → List Char}
    (neutral : ∀ item ∈ items, Neutral (written item)) : Neutral (items.flatMap written) := by
  induction items with
  | nil => exact neutral_nil
  | cons item items ih =>
    simp only [List.mem_cons, forall_eq_or_imp] at neutral
    rw [List.flatMap_cons]
    exact neutral.1.append (ih neutral.2)

private theorem neutral_intercalate {separator : String} {texts : List String} (between : Neutral separator.toList)
    (neutral : ∀ text ∈ texts, Neutral text.toList) : Neutral (separator.intercalate texts).toList := by
  rw [String.toList_intercalate]
  cases texts with
  | nil => exact neutral_nil
  | cons text texts =>
    simp only [List.mem_cons, forall_eq_or_imp] at neutral
    rw [List.map_cons, intercalate_cons, List.flatMap_map]
    exact neutral.1.append (neutral_flatMap fun other member => between.append (neutral.2 other member))

private theorem digits_member {c : Char} {number : Nat} (member : c ∈ number.repr.toList) : c.isDigit = true := by
  rw [Nat.toList_repr] at member
  exact Nat.isDigit_of_mem_toDigits (by decide) (by decide) member

private theorem neutral_key (key : Key) : Neutral key.text.toList := by
  cases key with
  | token content => exact neutral_quoted content
  | iteration => exact shifts_of_shift rfl
  | child ordinal =>
    have literal : Neutral ('"' :: ('_' :: ordinal.repr.toList ++ ['"'])) := by
      apply neutral_plain
      intro c member special
      rcases List.mem_cons.mp member with rfl | digit
      · exact absurd special (by decide)
      · have none : ['"', '\\'].any Char.isDigit = false := by decide
        exact List.any_eq_false.mp none c special (digits_member digit)
    have plus : Neutral "$key + ".toList := shifts_of_shift rfl
    simpa [Key.text] using plus.append literal

/-- A call of a function, whose name comes with the opening bracket. -/
private theorem neutral_call {name arguments : String} (named : shift [] name.toList = some ['('])
    (neutral : Neutral arguments.toList) : Neutral (name ++ arguments ++ ")").toList := by
  have closing : Shifts ")".toList ['('] [] := shifts_of_shift rfl
  exact ((shifts_of_shift named).concat (neutral.inside ['('])).concat closing

private theorem openElement_neutral (tag : String) (key : Option Key) {statics : Option String}
    (declared : ∀ identifier ∈ statics, Neutral identifier.toList) :
    Neutral (Statement.openElement tag key statics).source.toList := by
  apply neutral_call rfl
  apply neutral_intercalate (shifts_of_shift rfl)
  intro argument member
  simp only [Statement.arguments, List.cons_append, List.mem_cons, List.mem_append, Option.mem_toList] at member
  rcases member with rfl | keyed | identifier
  · exact neutral_quoted tag
  · obtain ⟨key, _, rfl⟩ := Option.map_eq_some_iff.mp keyed
    exact neutral_key key
  · exact declared argument identifier

private theorem closeElement_neutral (tag : String) : Neutral (Statement.closeElement tag).source.toList :=
  neutral_call rfl (neutral_quoted tag)

private theorem text_neutral (content : String) : Neutral (Statement.text content).source.toList :=
  neutral_call rfl (neutral_continued content)

private theorem openGuard_shifts {condition : String} (neutral : Neutral condition.toList) :
    Shifts (Statement.openGuard condition).source.toList [] ['\x7b'] := by
  have opening : Shifts "if (".toList [] ['('] := shifts_of_shift rfl
  have closing : Shifts ") \x7b".toList ['('] ['\x7b'] := shifts_of_shift rfl
  exact (opening.concat (neutral.inside ['('])).concat closing

private theorem closeGuard_shifts : Shifts Statement.closeGuard.source.toList ['\x7b'] [] :=
  shifts_of_shift rfl

private theorem neutral_target : Neutral targetName.toList := shifts_of_shift rfl

private theorem setTarget_neutral {iterable : String} (neutral : Neutral iterable.toList) :
    Neutral (Statement.setTarget iterable).source.toList := by
  have equals : Neutral " = ".toList := shifts_of_shift rfl
  exact (neutral_target.concat equals).concat neutral

private theorem openLoop_shifts : Shifts Statement.openLoop.source.toList [] ['\x7b', '('] := by
  have choice : Shifts ";(".toList [] ['('] := shifts_of_shift rfl
  have array : Neutral ".forEach ? ".toList := shifts_of_shift rfl
  have keys : Shifts " : Object.keys(".toList ['('] ['(', '('] := shifts_of_shift rfl
  have each : Shifts ")).forEach(function($value, $item, $target) \x7b".toList ['(', '('] ['\x7b', '('] :=
    shifts_of_shift rfl
  have tested := (choice.concat (neutral_target.inside _)).concat (array.inside _)
  exact (((tested.concat (neutral_target.inside _)).concat keys).concat (neutral_target.inside _)).concat each

private theorem bindItem_neutral {item : String} (identifier : isIdentifier item = true) :
    Neutral (Statement.bindItem item).source.toList := by
  have declared : Neutral "var ".toList := shifts_of_shift rfl
  have value : Neutral " = $value".toList := shifts_of_shift rfl
  exact (declared.concat (neutral_identifier identifier)).concat value

private theorem bindKey_neutral (token : String) {key : Option String}
    (neutral : ∀ expression ∈ key, Neutral expression.toList) :
    Neutral (Statement.bindKey token key).source.toList := by
  have declared : Neutral "var $key = ".toList := shifts_of_shift rfl
  have plus : Neutral " + ".toList := shifts_of_shift rfl
  have expression : Neutral (key.getD "$item").toList := by
    cases key with
    | none => exact shifts_of_shift rfl
    | some expression => exact neutral expression rfl
  exact ((declared.concat (neutral_quoted (token ++ "_"))).concat plus).concat expression

private theorem closeLoop_shifts : Shifts Statement.closeLoop.source.toList ['\x7b', '('] [] :=
  shifts_of_shift rfl

/-- The effect of lines that follow one another. -/
private def Runs (lines : List Line) (before after : List Char) : Prop :=
  Shifts (lines.flatMap fun line => '\n' :: line.text.toList) before after

private theorem runs_nil : Runs [] [] [] := neutral_nil

private theorem Runs.append {first second : List Line} {before between behind : List Char}
    (one : Runs first before between) (other : Runs second between behind) : Runs (first ++ second) before behind := by
  unfold Runs
  rw [List.flatMap_append]
  exact Shifts.append one other

private theorem Runs.inside {lines : List Line} (runs : Runs lines [] []) (outer : List Char) : Runs lines outer outer :=
  Neutral.inside runs outer

private theorem runs_line (depth : Nat) {statement : Statement} {before after : List Char}
    (shifts : Shifts statement.source.toList before after) : Runs [⟨depth, statement⟩] before after := by
  have blanks : Neutral ('\n' :: List.replicate (2 * depth) ' ') := by
    apply neutral_unmarked
    intro c member
    rcases List.mem_cons.mp member with rfl | blank
    · decide
    · rw [List.eq_of_mem_replicate blank]
      decide
  simpa [Runs, Line.text] using (blanks.inside before).append shifts

private theorem guarded_runs (depth : Nat) {guard : Option Guard} {body : List Line}
    (balanced : ∀ condition ∈ guard.map Guard.condition, balance condition = .ok ()) (runs : Runs body [] []) :
    Runs (guarded depth guard body) [] [] := by
  cases guard with
  | none => exact runs
  | some guard =>
    have opening := runs_line depth (openGuard_shifts (neutral_of_balance (balanced _ rfl)))
    exact (opening.append (runs.inside _)).append (runs_line depth closeGuard_shifts)

private theorem looped_runs (token : String) (depth : Nat) {spec : LoopSpec} {body : List Line} (tidy : Tidy spec)
    (runs : Runs body [] []) : Runs (looped token depth spec body) [] [] := by
  have target := runs_line depth (setTarget_neutral (neutral_of_balance tidy.iterable))
  have known := runs_line depth (openGuard_shifts neutral_target)
  have opening := runs_line (depth + 1) openLoop_shifts
  have item := runs_line (depth + 2) (bindItem_neutral tidy.item)
  have key := runs_line (depth + 2) (bindKey_neutral token fun expression member =>
    neutral_of_balance (tidy.key expression member))
  have content := (item.append (key.append runs)).inside ['\x7b', '(']
  have callback := (opening.append content).append (runs_line (depth + 1) closeLoop_shifts)
  have whole := (target.append (known.append (callback.inside _))).append (runs_line depth closeGuard_shifts)
  simpa [looped] using whole

private theorem element_runs (depth : Nat) (tag : String) (key : Option Key) {statics : Option String} {body : List Line}
    (declared : ∀ identifier ∈ statics, Neutral identifier.toList) (runs : Runs body [] []) :
    Runs (⟨depth, .openElement tag key statics⟩ :: body ++ [⟨depth, .closeElement tag⟩]) [] [] := by
  have opening := runs_line depth (openElement_neutral tag key declared)
  exact (opening.append runs).append (runs_line depth (closeElement_neutral tag))

/-- Nothing in the preamble leaves a bracket or a literal open. -/
private structure Orderly (table : HoistTable) : Prop where
  identifiers : ∀ hoisted ∈ table.statics, Neutral hoisted.identifier.toList
  texts : ∀ hoisted ∈ table.statics, Neutral hoisted.text.toList
  literals : ∀ literal ∈ table.literals, Neutral literal.toList

private theorem orderly_empty : Orderly .empty :=
  ⟨by simp [HoistTable.empty], by simp [HoistTable.empty], by simp [HoistTable.empty]⟩

private theorem neutral_identifierAt (number : Nat) : Neutral (HoistTable.identifierAt number).toList := by
  apply neutral_unmarked
  intro c member
  apply unmarked_identifier
  simp only [HoistTable.identifierAt, String.toList_append, List.mem_append] at member
  rcases member with name | digit
  · have letters : "hoisted".toList.all continuesIdentifier = true := by decide
    exact List.all_eq_true.mp letters c name
  · simp [continuesIdentifier, digits_member digit]

private theorem neutral_canonical (attributes : List Attribute) : Neutral (Attribute.canonical attributes).toList := by
  have items : Neutral (", ".intercalate (Attribute.items (Attribute.sorted attributes))).toList := by
    apply neutral_intercalate (shifts_of_shift rfl)
    intro text member
    rw [items_eq] at member
    obtain ⟨content, _, rfl⟩ := List.mem_map.mp member
    exact neutral_quoted content
  have opening : Shifts "[".toList [] ['['] := shifts_of_shift rfl
  have closing : Shifts "]".toList ['['] [] := shifts_of_shift rfl
  exact (opening.concat (items.inside ['['])).concat closing

private theorem Orderly.addStatics {table : HoistTable} (orderly : Orderly table) {text : String}
    (neutral : Neutral text.toList) :
    Orderly (table.addStatics text).2 ∧ Neutral (table.addStatics text).1.toList := by
  rcases addStatics_cases table text with ⟨declared, member, _, result⟩ | ⟨_, result⟩
  · rw [result]
    exact ⟨orderly, orderly.identifiers declared member⟩
  · rw [result]
    have fresh := neutral_identifierAt (table.count + 1)
    refine ⟨⟨?_, ?_, orderly.literals⟩, fresh⟩
    · intro hoisted member
      rcases List.mem_append.mp member with known | new
      · exact orderly.identifiers hoisted known
      · rw [List.mem_singleton.mp new]
        exact fresh
    · intro hoisted member
      rcases List.mem_append.mp member with known | new
      · exact orderly.texts hoisted known
      · rw [List.mem_singleton.mp new]
        exact neutral

private theorem Orderly.addLiteral {table : HoistTable} (orderly : Orderly table) {text : String}
    (neutral : Neutral text.toList) : Orderly (table.addLiteral text) := by
  refine ⟨orderly.identifiers, orderly.texts, ?_⟩
  intro literal member
  rcases List.mem_append.mp member with known | new
  · exact orderly.literals literal known
  · rw [List.mem_singleton.mp new]
    exact neutral

private theorem Orderly.attributes {table : HoistTable} (orderly : Orderly table) (attributes : List Attribute) :
    Orderly (hoistAttributes table attributes).2 ∧
      ∀ identifier ∈ (hoistAttributes table attributes).1, Neutral identifier.toList := by
  unfold hoistAttributes
  split
  · exact ⟨orderly, by simp⟩
  · obtain ⟨after, identifier⟩ := orderly.addStatics (neutral_canonical attributes)
    exact ⟨after, by simpa using identifier⟩

private theorem declaration_neutral {hoisted : Hoisted} (identifier : Neutral hoisted.identifier.toList)
    (text : Neutral hoisted.text.toList) : Neutral ("\n" ++ hoisted.declaration).toList := by
  have feed : Neutral "\n".toList := shifts_of_shift rfl
  have declared : Neutral "var ".toList := shifts_of_shift rfl
  have equals : Neutral " = ".toList := shifts_of_shift rfl
  exact feed.concat (((declared.concat identifier).concat equals).concat text)

private theorem preamble_neutral {table : HoistTable} (orderly : Orderly table) : Neutral table.preamble.toList := by
  have literals := @neutral_intercalate "\n" _ (shifts_of_shift rfl) orderly.literals
  refine literals.concat ?_
  rw [String.toList_join, List.flatMap_map]
  apply neutral_flatMap
  intro hoisted member
  exact declaration_neutral (orderly.identifiers hoisted member) (orderly.texts hoisted member)

mutual

/-- Everything that a node puts into the module as it is, is balanced. -/
def Clean : Node → Prop
  | .text _ => True
  | .script code _ => balance code = .ok ()
  | .loop spec children _ => Tidy spec ∧ CleanAll children
  | .element _ _ children loop guard _ =>
    (∀ spec ∈ loop, Tidy spec) ∧ (∀ condition ∈ guard.map Guard.condition, balance condition = .ok ()) ∧
      CleanAll children

def CleanAll : List Node → Prop
  | [] => True
  | node :: rest => Clean node ∧ CleanAll rest

end

mutual

private theorem lines_run {token : String} (node : Node) (clean : Clean node) {depth : Nat} {key : Option Key}
    {table : HoistTable} (orderly : Orderly table) :
    Runs (node.lines token depth key table).1 [] [] ∧ Orderly (node.lines token depth key table).2 := by
  match node with
  | .text content => exact ⟨runs_line depth (text_neutral content), orderly⟩
  | .script code hoisted =>
    have neutral : Neutral code.toList := neutral_of_balance clean
    cases hoisted with
    | true => exact ⟨runs_nil, orderly.addLiteral neutral⟩
    | false => exact ⟨runs_line depth neutral, orderly⟩
  | .loop spec children span =>
    obtain ⟨tidy, inside⟩ := clean
    obtain ⟨body, after⟩ := children_run children inside orderly
    exact ⟨looped_runs token depth tidy body, after⟩
  | .element tag attributes children loop guard span =>
    obtain ⟨loops, guards, inside⟩ := clean
    obtain ⟨hoisted, declared⟩ := orderly.attributes attributes
    cases loop with
    | none =>
      obtain ⟨body, after⟩ := forest_run children inside hoisted
      exact ⟨guarded_runs depth guards (element_runs _ tag _ declared body), after⟩
    | some spec =>
      obtain ⟨body, after⟩ := forest_run children inside hoisted
      exact ⟨looped_runs token depth (loops spec rfl)
        (guarded_runs (depth + 2) guards (element_runs _ tag _ declared body)), after⟩
termination_by structural node

private theorem forest_run {token : String} (nodes : List Node) (clean : CleanAll nodes) {depth : Nat}
    {table : HoistTable} (orderly : Orderly table) :
    Runs (forestLines token depth table nodes).1 [] [] ∧ Orderly (forestLines token depth table nodes).2 := by
  match nodes with
  | [] => exact ⟨runs_nil, orderly⟩
  | node :: rest =>
    obtain ⟨first, between⟩ := lines_run node clean.1 orderly
    obtain ⟨later, after⟩ := forest_run rest clean.2 between
    exact ⟨first.append later, after⟩
termination_by structural nodes

private theorem children_run {token : String} (nodes : List Node) (clean : CleanAll nodes) {depth count ordinal : Nat}
    {table : HoistTable} (orderly : Orderly table) :
    Runs (childLines token depth count ordinal table nodes).1 [] [] ∧
      Orderly (childLines token depth count ordinal table nodes).2 := by
  match nodes with
  | [] => exact ⟨runs_nil, orderly⟩
  | node :: rest =>
    obtain ⟨first, between⟩ := lines_run node clean.1 orderly
    obtain ⟨later, after⟩ := children_run rest clean.2 between
    exact ⟨first.append later, after⟩
termination_by structural nodes

end

private theorem statements_neutral {lines : List Line} (runs : Runs lines [] []) :
    Neutral ("\n".intercalate (lines.map Line.text)).toList := by
  rw [String.toList_intercalate]
  cases lines with
  | nil => exact neutral_nil
  | cons line lines =>
    rw [List.map_cons, List.map_cons, intercalate_cons, List.flatMap_map, List.flatMap_map]
    intro below rest
    have run := runs below rest
    simpa [balanceFrom_code, isQuote, isOpening, openingOf] using run

private theorem module_opening : Shifts ";(function () \x7b\n".toList [] ['\x7b', '('] := shifts_of_shift rfl

private theorem module_closing : Shifts "\n\x7d\n\x7d)()\n".toList ['\x7b', '\x7b', '('] [] := shifts_of_shift rfl

private theorem moduleText_neutral {table : HoistTable} {lines : List Line} {functionName dataParam : String}
    (orderly : Orderly table) (runs : Runs lines [] []) (name : isIdentifier functionName = true)
    (parameter : isIdentifier dataParam = true) :
    Neutral (moduleText table (lines.map Line.text) functionName dataParam).toList := by
  have returned : Neutral "\n\nreturn function ".toList := shifts_of_shift rfl
  have parameters : Shifts " (".toList ['\x7b', '('] ['(', '\x7b', '('] := shifts_of_shift rfl
  have body : Shifts ") \x7b\n".toList ['(', '\x7b', '('] ['\x7b', '\x7b', '('] := shifts_of_shift rfl
  have outer := ((module_opening.concat ((preamble_neutral orderly).inside _)).concat (returned.inside _)).concat
    ((neutral_identifier name).inside _)
  have header := ((outer.concat parameters).concat ((neutral_identifier parameter).inside _)).concat body
  exact (header.concat ((statements_neutral runs).inside _)).concat module_closing

mutual

/-- The code of every script, at any depth. -/
def codes : Node → List String
  | .text _ => []
  | .script code _ => [code]
  | .loop _ children _ => codesAll children
  | .element _ _ children _ _ _ => codesAll children

def codesAll : List Node → List String
  | [] => []
  | node :: rest => codes node ++ codesAll rest

end

private theorem directs_clean {written attributes : List Attribute} {loop : Option LoopSpec} {condition : Option String}
    (directs : Directs written attributes loop condition) :
    (∀ spec ∈ loop, Tidy spec) ∧ ∀ expression ∈ condition, balance expression = .ok () := by
  induction directs with
  | nil => simp
  | static _ _ _ ih => exact ih
  | each read _ ih => exact ⟨by simpa using readLoop_tidy read, ih.2⟩
  | guard read _ ih => exact ⟨ih.1, by simpa using readCondition_balanced read⟩

private theorem made_clean {tag : String} {written : List Attribute} {children : List Node} {node : Node}
    (made : Makes tag written children node)
    (inside : (∀ code ∈ codesAll children, balance code = .ok ()) → CleanAll children)
    (scripts : ∀ code ∈ codes node, balance code = .ok ()) : Clean node := by
  cases made with
  | element _ _ directs =>
    obtain ⟨loops, guards⟩ := directs_clean directs
    exact ⟨loops, guards, inside scripts⟩
  | loop _ read => exact ⟨readLoop_tidy read, inside scripts⟩

private theorem denotes_clean {pieces : List Markup.Piece} {nodes : List Node} (denotes : Denotes pieces nodes)
    (scripts : ∀ code ∈ codesAll nodes, balance code = .ok ()) : CleanAll nodes := by
  induction denotes with
  | nil => trivial
  | comment _ ih => exact ih scripts
  | text _ ih => exact ⟨trivial, ih scripts⟩
  | script _ _ _ ih =>
    simp only [codesAll, codes, List.mem_append, List.mem_singleton] at scripts
    exact ⟨scripts _ (Or.inl rfl), ih fun code member => scripts code (Or.inr member)⟩
  | leaf made _ ih =>
    simp only [codesAll, List.mem_append] at scripts
    exact ⟨made_clean made (fun _ => trivial) fun code member => scripts code (Or.inl member),
      ih fun code member => scripts code (Or.inr member)⟩
  | element _ made _ ihInside ih =>
    simp only [codesAll, List.mem_append] at scripts
    exact ⟨made_clean made ihInside fun code member => scripts code (Or.inl member),
      ih fun code member => scripts code (Or.inr member)⟩

mutual

private theorem normalize_clean (node : Node) (clean : Clean node) : Clean node.normalize := by
  match node with
  | .text _ => exact clean
  | .script _ _ => exact clean
  | .loop spec children span => exact ⟨clean.1, normalizeAll_clean children clean.2⟩
  | .element tag attributes children loop guard span =>
    obtain ⟨loops, guards, inside⟩ := clean
    have content := normalizeAll_clean children inside
    cases loop with
    | none => exact ⟨by simp, guards, content⟩
    | some spec => exact ⟨loops spec rfl, ⟨by simp, guards, content⟩, trivial⟩
termination_by structural node

private theorem normalizeAll_clean (nodes : List Node) (clean : CleanAll nodes) : CleanAll (normalizeAll nodes) := by
  match nodes with
  | [] => trivial
  | node :: rest =>
    have later := normalizeAll_clean rest clean.2
    unfold normalizeAll
    split
    · exact later
    · exact ⟨normalize_clean node clean.1, later⟩
termination_by structural nodes

end

private theorem validate_ok {options : Options} {done : Unit} (valid : options.validate = .ok done) :
    isIdentifier options.functionName = true ∧ isIdentifier options.dataParam = true := by
  unfold Options.validate at valid
  split at valid
  · cases valid
  · split at valid
    · cases valid
    · simp_all

/-- A compiled module is balanced if its scripts are, each by itself. -/
theorem compile_balanced (source : String) (options : Options) (output : String)
    (compiled : compile source options = .ok output)
    (scripts : ∀ found, Template.read source = .ok found → ∀ code ∈ codesAll found.body, balance code = .ok ()) :
    balance output = .ok () := by
  obtain ⟨valid, found, accepted, rfl⟩ := compile_ok.mp compiled
  obtain ⟨name, parameter⟩ := validate_ok valid
  obtain ⟨pieces, _, _, denotes⟩ := read_sound accepted
  have clean := normalizeAll_clean _ (denotes_clean denotes (scripts found accepted))
  obtain ⟨runs, orderly⟩ := forest_run _ clean orderly_empty
  have target : Neutral ("var " ++ targetName).toList := shifts_of_shift rfl
  rw [compileForest_lines]
  exact balance_of_neutral (moduleText_neutral (orderly.addLiteral target) runs name parameter)

theorem compile_balanced_scripted :
    ∃ output, compile "<p if='f(a)'>(</p><script>g()</script>" { keyToken := .fixed "k" } = .ok output ∧
      balance output = .ok () := by
  have read : Template.read "<p if='f(a)'>(</p><script>g()</script>" =
      .ok ⟨[.element "p" [] [.text "("] none (some ⟨"f(a)", ⟨3, 12, 1, 4⟩⟩) ⟨0, 18, 1, 1⟩,
        .script "g()" false], none⟩ := by decide +kernel
  have scripts : ∀ found, Template.read "<p if='f(a)'>(</p><script>g()</script>" = .ok found →
      ∀ code ∈ codesAll found.body, balance code = .ok () := by
    intro found accepted
    rw [read] at accepted
    cases accepted
    decide
  have compiled := (@compile_ok _ _ { keyToken := .fixed "k" }).mpr ⟨by decide, _, read, rfl⟩
  exact ⟨_, compiled, compile_balanced _ _ _ compiled scripts⟩

end Stencil.Proofs.ModuleBalance
