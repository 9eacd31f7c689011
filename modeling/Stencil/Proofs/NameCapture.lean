import Stencil.Proofs.CompiledModule
import Stencil.Proofs.HoistInvariant
import Stencil.Proofs.PrintedTemplate
import Stencil.Proofs.SpelledLoops

/-! Names in a render function. Generated code calls functions, reads hoisted data and binds variables
of its own next to names that the template and the options have chosen, which are any identifiers.
A name of the generated code means what it should wherever no chosen name in scope is equal to it. -/

namespace Stencil.Proofs.NameCapture
open HoistTable HoistInvariant CompiledModule BalancedCode PrintedTemplate SpelledLoops TemplateReading

/-- A variable, which has been named by the template or the options if it is chosen. -/
structure Binding where
  name : String
  chosen : Bool
deriving DecidableEq

/-- The functions around a statement, from the innermost, with the variables of each. -/
abbrev Scope := List (List Binding)

namespace Scope

/-- The variables that a name stands for. Bindings of one name in one function are one variable. -/
def lookup : Scope → String → List Binding
  | [], _ => []
  | frame :: outer, name =>
    match frame.filter (·.name = name) with
    | [] => lookup outer name
    | found => found

/-- The names that have been chosen for variables in scope. -/
def chosen (scope : Scope) : List String := (scope.flatten.filter Binding.chosen).map Binding.name

/-- A name stands for a variable, and for none that a chosen name has been given to. -/
structure Owns (scope : Scope) (name : String) : Prop where
  bound : scope.lookup name ≠ []
  generated : ∀ binding ∈ scope.lookup name, binding.chosen = false

def bind (scope : Scope) (binding : Binding) : Scope :=
  match scope with
  | [] => [[binding]]
  | frame :: outer => (binding :: frame) :: outer

/-- The scope with the variable that a statement declares. -/
def declare (scope : Scope) : Statement → Scope
  | .bindItem item => scope.bind ⟨item, true⟩
  | .bindKey _ _ => scope.bind ⟨"$key", false⟩
  | _ => scope

def parameters : List Binding := [⟨"$value", false⟩, ⟨"$item", false⟩, ⟨"$target", false⟩]

/-- The scope behind a statement: a loop runs a function of its own. -/
def enter (scope : Scope) (statement : Statement) : Scope :=
  match statement with
  | .openLoop => parameters :: scope
  | .closeLoop => scope.tail
  | _ => scope.declare statement

end Scope

def keyNames : Key → List String
  | .token _ => []
  | .iteration => ["$key"]
  | .child _ => ["$key"]

/-- The names that a statement uses on behalf of the generated code. The parameters of a loop are those
of its first statement, and what stands in scripts and expressions is left to the template. -/
def names : Statement → List String
  | .openElement _ key statics => "elementOpen" :: key.toList.flatMap keyNames ++ statics.toList
  | .closeElement _ => ["elementClose"]
  | .text _ => ["text"]
  | .openGuard condition => if condition = targetName then [targetName] else []
  | .setTarget _ => [targetName]
  | .openLoop => [targetName, "Object"]
  | .bindItem _ => ["$value", "$item", "$target"]
  | .bindKey _ key => "$key" :: if key.isNone then ["$item"] else []
  | .closeGuard => []
  | .closeLoop => []
  | .script _ => []

/-- Something holds of every name of the generated code in the scope that it is used in. -/
def Everywhere (holds : Scope → String → Prop) : Scope → List Line → Prop
  | _, [] => True
  | scope, line :: rest =>
    (∀ name ∈ names line.statement, holds (scope.declare line.statement) name) ∧
      Everywhere holds (scope.enter line.statement) rest

/-- The scope of a render function: its parameter, its own name, the preamble, and what it is run with. -/
def moduleScope (table : HoistTable) (functionName dataParam : String) : Scope :=
  [[⟨dataParam, true⟩], [⟨functionName, true⟩],
    ⟨targetName, false⟩ :: table.statics.map fun hoisted => ⟨hoisted.identifier, false⟩,
    ["elementOpen", "elementClose", "text", "Object"].map fun name => ⟨name, false⟩]

/-- The names that generated code binds or calls. -/
def ownNames (table : HoistTable) : List String :=
  ["elementOpen", "elementClose", "text", targetName, "$value", "$item", "$target", "$key"] ++
    table.statics.map Hoisted.identifier

private theorem owns_of_unchosen {scope : Scope} {name : String} (bound : ⟨name, false⟩ ∈ scope.flatten)
    (unchosen : name ∉ scope.chosen) : scope.Owns name := by
  induction scope with
  | nil => simp at bound
  | cons frame outer ih =>
    have inFrame : ∀ binding ∈ frame.filter (·.name = name), binding.chosen = false := by
      intro binding member
      obtain ⟨inside, same⟩ := List.mem_filter.mp member
      by_contra isChosen
      apply unchosen
      simp only [Scope.chosen, List.mem_map, List.mem_filter, List.flatten_cons, List.mem_append]
      exact ⟨binding, ⟨Or.inl inside, by simpa using isChosen⟩, of_decide_eq_true same⟩
    cases found : frame.filter (·.name = name) with
    | nil =>
      have outside : ⟨name, false⟩ ∈ outer.flatten := by
        rcases List.mem_append.mp bound with inside | outside
        · exact absurd (List.mem_filter.mpr ⟨inside, by simp⟩) (found ▸ List.not_mem_nil)
        · exact outside
      have same : Scope.lookup (frame :: outer) name = Scope.lookup outer name := by simp [Scope.lookup, found]
      have owns := ih outside fun member => unchosen (by simp_all [Scope.chosen])
      exact ⟨same ▸ owns.bound, same ▸ owns.generated⟩
    | cons binding others =>
      have same : Scope.lookup (frame :: outer) name = binding :: others := by simp [Scope.lookup, found]
      exact ⟨by simp [same], by rw [same, ← found]; exact inFrame⟩

private theorem Everywhere.imp {holds other : Scope → String → Prop} {scope : Scope} {lines : List Line}
    (everywhere : Everywhere holds scope lines) (implies : ∀ scope name, holds scope name → other scope name) :
    Everywhere other scope lines := by
  induction lines generalizing scope with
  | nil => trivial
  | cons line rest ih => exact ⟨fun name member => implies _ _ (everywhere.1 name member), ih everywhere.2⟩

private structure Stays (holds : Scope → String → Prop) (scope : Scope) (lines : List Line) : Prop where
  everywhere : Everywhere holds scope lines
  restored : lines.foldl (fun scope line => scope.enter line.statement) scope = scope

section

variable {holds : Scope → String → Prop} {scope : Scope}

private theorem everywhere_append {first second : List Line} (one : Everywhere holds scope first)
    (other : Everywhere holds (first.foldl (fun scope line => scope.enter line.statement) scope) second) :
    Everywhere holds scope (first ++ second) := by
  induction first generalizing scope with
  | nil => exact other
  | cons line rest ih => exact ⟨one.1, ih one.2 other⟩

private theorem stays_nil : Stays holds scope [] := ⟨trivial, rfl⟩

private theorem Stays.append {first second : List Line} (one : Stays holds scope first)
    (other : Stays holds scope second) : Stays holds scope (first ++ second) := by
  refine ⟨everywhere_append one.everywhere (one.restored.symm ▸ other.everywhere), ?_⟩
  rw [List.foldl_append, one.restored, other.restored]

private theorem stays_line (depth : Nat) {statement : Statement} (still : scope.enter statement = scope)
    (same : scope.declare statement = scope) (meant : ∀ name ∈ names statement, holds scope name) :
    Stays holds scope [⟨depth, statement⟩] :=
  ⟨⟨by rwa [same], trivial⟩, still⟩

private theorem guarded_stays (depth : Nat) {guard : Option Guard} {body : List Line} (target : holds scope targetName)
    (stays : Stays holds scope body) : Stays holds scope (guarded depth guard body) := by
  cases guard with
  | none => exact stays
  | some guard =>
    have opening : Stays holds scope [⟨depth, .openGuard guard.condition⟩] := by
      apply stays_line depth rfl rfl
      intro name member
      rw [names] at member
      split at member
      · exact List.mem_singleton.mp member ▸ target
      · cases member
    exact (opening.append stays).append (stays_line depth rfl rfl (by simp [names]))

end

private def inLoop (item : String) (scope : Scope) : Scope :=
  (⟨"$key", false⟩ :: ⟨item, true⟩ :: Scope.parameters) :: scope

private def Sorted (final : HoistTable) (known : List String) (scope : Scope) : Prop :=
  ∀ binding ∈ scope.flatten, binding.name ∈ if binding.chosen then known else "Object" :: ownNames final

private structure Meant (final : HoistTable) (known : List String) (scope : Scope) (name : String) : Prop where
  bound : ⟨name, false⟩ ∈ scope.flatten
  sorted : Sorted final known scope

private def fixedNames : List String := [targetName, "elementOpen", "elementClose", "text", "Object"]

private structure Ready (final : HoistTable) (known : List String) (scope : Scope) : Prop where
  fixed : ∀ name ∈ fixedNames, ⟨name, false⟩ ∈ scope.flatten
  statics : ∀ hoisted ∈ final.statics, ⟨hoisted.identifier, false⟩ ∈ scope.flatten
  sorted : Sorted final known scope

section

variable {final : HoistTable} {known : List String} {scope : Scope}

private theorem Ready.meant (ready : Ready final known scope) {name : String} (fixed : name ∈ fixedNames) :
    Meant final known scope name :=
  ⟨ready.fixed name fixed, ready.sorted⟩

private theorem Ready.within (ready : Ready final known scope) {frame : List Binding}
    (sorted : Sorted final known [frame]) : Ready final known (frame :: scope) := by
  refine ⟨fun name fixed => ?_, fun hoisted inside => ?_, fun binding member => ?_⟩
  · exact List.mem_append_right _ (ready.fixed name fixed)
  · exact List.mem_append_right _ (ready.statics hoisted inside)
  · rcases List.mem_append.mp member with inside | outside
    · exact sorted binding (by simpa using inside)
    · exact ready.sorted binding outside

private theorem Ready.inLoop (ready : Ready final known scope) {item : String} (member : item ∈ known) :
    Ready final known (inLoop item scope) :=
  ready.within (by simp [Sorted, Scope.parameters, ownNames, member])

private theorem bindItem_meant (ready : Ready final known scope) {item : String} (member : item ∈ known) :
    ∀ name ∈ names (.bindItem item), Meant final known ((⟨item, true⟩ :: Scope.parameters) :: scope) name := by
  intro name listed
  have inner : Ready final known ((⟨item, true⟩ :: Scope.parameters) :: scope) :=
    ready.within (by simp [Sorted, Scope.parameters, ownNames, member])
  refine ⟨?_, inner.sorted⟩
  simp only [names, List.mem_cons, List.not_mem_nil, or_false] at listed
  rcases listed with rfl | rfl | rfl <;> simp [Scope.parameters]

private theorem bindKey_meant (ready : Ready final known scope) {item : String} (member : item ∈ known) (token : String)
    (key : Option String) : ∀ name ∈ names (.bindKey token key), Meant final known (inLoop item scope) name := by
  intro name listed
  refine ⟨?_, (ready.inLoop member).sorted⟩
  rcases List.mem_cons.mp listed with rfl | later
  · simp [inLoop]
  · split at later
    · rw [List.mem_singleton.mp later]
      simp [inLoop, Scope.parameters]
    · cases later

private theorem looped_stays (token : String) (depth : Nat) {spec : LoopSpec} {body : List Line}
    (ready : Ready final known scope) (member : spec.item ∈ known)
    (stays : Stays (Meant final known) (inLoop spec.item scope) body) :
    Stays (Meant final known) scope (looped token depth spec body) := by
  have target : Meant final known scope targetName := ready.meant (by simp [fixedNames])
  have setting : ∀ name ∈ names (.setTarget spec.iterable), Meant final known scope name := by simpa [names] using target
  have guard : ∀ name ∈ names (.openGuard targetName), Meant final known scope name := by simpa [names] using target
  have opening : ∀ name ∈ names .openLoop, Meant final known scope name := by
    simpa [names] using And.intro target (ready.meant (by simp [fixedNames]))
  have closing : Everywhere (Meant final known) (inLoop spec.item scope)
      [⟨depth + 1, .closeLoop⟩, ⟨depth, .closeGuard⟩] := by simp [Everywhere, names]
  constructor
  · exact ⟨setting, guard, opening, bindItem_meant ready member, bindKey_meant ready member token spec.key,
      everywhere_append stays.everywhere (stays.restored.symm ▸ closing)⟩
  · change (body ++ [_, _]).foldl _ (inLoop spec.item scope) = scope
    rw [List.foldl_append, stays.restored]
    rfl

end

mutual

/-- The item variables of the loops in a node. -/
def items : Node → List String
  | .text _ => []
  | .script _ _ => []
  | .loop spec children _ => spec.item :: itemsAll children
  | .element _ _ children loop _ _ => loop.toList.map LoopSpec.item ++ itemsAll children

def itemsAll : List Node → List String
  | [] => []
  | node :: rest => items node ++ itemsAll rest

end

section

variable {final : HoistTable} {known : List String} {token : String}

private theorem keyNames_key {key : Key} {name : String} (named : name ∈ keyNames key) : name = "$key" := by
  cases key with
  | token content => cases named
  | iteration => exact List.mem_singleton.mp named
  | child ordinal => exact List.mem_singleton.mp named

private theorem keyArgument_key {attributes : List Attribute} {key : Option Key} {own : Key} {name : String}
    (given : keyArgument token key attributes = some own) (named : name ∈ keyNames own) : key.isSome := by
  cases key with
  | some key => rfl
  | none =>
    simp only [keyArgument] at given
    split at given
    · cases given
    · cases given
      cases named

private theorem element_stays {scope : Scope} {outer inner : Nat} {tag : String} {attributes : List Attribute}
    {guard : Option Guard} {key : Option Key} {table : HoistTable} {content : List Line}
    (ready : Ready final known scope) (keyed : key.isSome → ⟨"$key", false⟩ ∈ scope.flatten)
    (grown : (hoistAttributes table attributes).2.statics ⊆ final.statics)
    (stays : Stays (Meant final known) scope content) :
    Stays (Meant final known) scope (guarded outer guard
      (⟨inner, .openElement tag (keyArgument token key attributes) (hoistAttributes table attributes).1⟩ :: content ++
        [⟨inner, .closeElement tag⟩])) := by
  have opening : ∀ name ∈ names (.openElement tag (keyArgument token key attributes)
      (hoistAttributes table attributes).1), Meant final known scope name := by
    intro name listed
    simp only [names, List.cons_append, List.mem_cons, List.mem_append, List.mem_flatMap, Option.mem_toList] at listed
    rcases listed with rfl | ⟨own, given, named⟩ | hoisted
    · exact ready.meant (by simp [fixedNames])
    · refine ⟨?_, ready.sorted⟩
      rw [keyNames_key named]
      exact keyed (keyArgument_key given named)
    · exact ⟨ready.statics _ (grown (hoistAttributes_declared hoisted)), ready.sorted⟩
  have closing : ∀ name ∈ names (.closeElement tag), Meant final known scope name := by
    simpa [names] using ready.meant (by simp [fixedNames])
  apply guarded_stays outer (ready.meant (by simp [fixedNames]))
  exact ((stays_line inner rfl rfl opening).append stays).append (stays_line inner rfl rfl closing)

mutual

private theorem lines_stay (node : Node) {depth : Nat} {key : Option Key} {table : HoistTable} {scope : Scope}
    (ready : Ready final known scope) (keyed : key.isSome → ⟨"$key", false⟩ ∈ scope.flatten)
    (grown : (node.lines token depth key table).2.statics ⊆ final.statics) (listed : items node ⊆ known) :
    Stays (Meant final known) scope (node.lines token depth key table).1 := by
  match node with
  | .text content =>
    apply stays_line depth rfl rfl
    simpa [names] using ready.meant (by simp [fixedNames])
  | .script code hoisted =>
    cases hoisted with
    | true => exact stays_nil
    | false => exact stays_line depth rfl rfl (by simp [names])
  | .loop spec children span =>
    have inside := List.cons_subset.mp listed
    have within := ready.inLoop inside.1
    exact looped_stays token depth ready inside.1 (children_stay children within (by simp [inLoop]) grown inside.2)
  | .element tag attributes children loop guard span =>
    have inside := List.append_subset.mp listed
    have before := List.Subset.trans hoistAttributes_grows.subset grown
    cases loop with
    | none => exact element_stays ready keyed before (forest_stay children ready grown inside.2)
    | some spec =>
      have item : spec.item ∈ known := inside.1 (by simp)
      have within := ready.inLoop item
      exact looped_stays token depth ready item
        (element_stays within (by simp [inLoop]) before (forest_stay children within grown inside.2))
termination_by structural node

private theorem forest_stay (nodes : List Node) {depth : Nat} {table : HoistTable} {scope : Scope}
    (ready : Ready final known scope) (grown : (forestLines token depth table nodes).2.statics ⊆ final.statics)
    (listed : itemsAll nodes ⊆ known) : Stays (Meant final known) scope (forestLines token depth table nodes).1 := by
  match nodes with
  | [] => exact stays_nil
  | node :: rest =>
    have both := List.append_subset.mp listed
    have before := List.Subset.trans (forestLines_grows rest).subset grown
    exact (lines_stay node ready (by simp) before both.1).append (forest_stay rest ready grown both.2)
termination_by structural nodes

private theorem children_stay (nodes : List Node) {depth count ordinal : Nat} {table : HoistTable} {scope : Scope}
    (ready : Ready final known scope) (keyed : ⟨"$key", false⟩ ∈ scope.flatten)
    (grown : (childLines token depth count ordinal table nodes).2.statics ⊆ final.statics)
    (listed : itemsAll nodes ⊆ known) :
    Stays (Meant final known) scope (childLines token depth count ordinal table nodes).1 := by
  match nodes with
  | [] => exact stays_nil
  | node :: rest =>
    have both := List.append_subset.mp listed
    have before := List.Subset.trans (childLines_grows rest).subset grown
    exact (lines_stay node ready (fun _ => keyed) before both.1).append (children_stay rest ready keyed grown both.2)
termination_by structural nodes

end

end

private theorem blank_items {node : Node} (blank : node.isBlankText = true) : items node = [] := by
  cases node with
  | text content => rfl
  | script code hoisted => rfl
  | loop spec children span => cases blank
  | element tag attributes children loop guard span => cases blank

mutual

private theorem normalize_items (node : Node) : items node.normalize = items node := by
  match node with
  | .text content => rfl
  | .script code hoisted => rfl
  | .loop spec children span => simp only [Node.normalize, items, normalizeAll_items children]
  | .element tag attributes children loop guard span =>
    cases loop with
    | none => simp only [Node.normalize, items, normalizeAll_items children]
    | some spec => simp [Node.normalize, items, itemsAll, normalizeAll_items children]
termination_by structural node

private theorem normalizeAll_items (nodes : List Node) : itemsAll (normalizeAll nodes) = itemsAll nodes := by
  match nodes with
  | [] => rfl
  | node :: rest =>
    rw [normalizeAll]
    split
    next blank =>
      rw [normalizeAll_items rest, itemsAll, blank_items blank, List.nil_append]
    next => rw [itemsAll, normalize_items node, normalizeAll_items rest, itemsAll]
termination_by structural nodes

end

/-- The names that the options and the loops of a forest have chosen. -/
def chosenNames (options : Options) (forest : List Node) : List String :=
  options.functionName :: options.dataParam :: itemsAll forest

private theorem moduleScope_ready (table : HoistTable) (options : Options) (forest : List Node) :
    Ready table (chosenNames options forest) (moduleScope table options.functionName options.dataParam) := by
  have members : ∀ binding, binding ∈ (moduleScope table options.functionName options.dataParam).flatten ↔
      binding = ⟨options.dataParam, true⟩ ∨ binding = ⟨options.functionName, true⟩ ∨ binding = ⟨targetName, false⟩ ∨
        (∃ hoisted ∈ table.statics, binding = ⟨hoisted.identifier, false⟩) ∨
        ∃ name ∈ ["elementOpen", "elementClose", "text", "Object"], binding = ⟨name, false⟩ := by
    simp [moduleScope, eq_comm]
  refine ⟨?_, ?_, ?_⟩
  · simp [moduleScope, fixedNames]
  · exact fun hoisted member => (members _).mpr (by grind)
  · intro binding member
    rcases (members binding).mp member with rfl | rfl | rfl | ⟨hoisted, inside, rfl⟩ | ⟨name, inside, rfl⟩
    · simp [chosenNames]
    · simp [chosenNames]
    · simp [ownNames]
    · simp only [ownNames, Bool.false_eq_true, ite_false, List.mem_cons, List.mem_append, List.mem_map]
      exact Or.inr (Or.inr ⟨hoisted, inside, rfl⟩)
    · simp only [List.mem_cons, List.not_mem_nil, or_false] at inside
      rcases inside with rfl | rfl | rfl | rfl <;> simp [ownNames]

private theorem Meant.owns {final : HoistTable} {known : List String} {scope : Scope} {name : String}
    (meant : Meant final known scope name) (apart : ∀ other ∈ known, other ∉ "Object" :: ownNames final) :
    scope.Owns name := by
  apply owns_of_unchosen meant.bound
  intro chosen
  obtain ⟨binding, inside, rfl⟩ := List.mem_map.mp chosen
  obtain ⟨member, isChosen⟩ := List.mem_filter.mp inside
  have other := meant.sorted binding member
  rw [if_pos isChosen] at other
  exact apart _ other (meant.sorted _ meant.bound)

mutual

private theorem spanless_items (node : Node) : items (spanless node) = items node := by
  match node with
  | .text content => rfl
  | .script code hoisted => rfl
  | .loop spec children span => simp only [spanless, items, spanlessAll_items children]
  | .element tag attributes children loop guard span => simp only [spanless, items, spanlessAll_items children]
termination_by structural node

private theorem spanlessAll_items (nodes : List Node) : itemsAll (spanlessAll nodes) = itemsAll nodes := by
  match nodes with
  | [] => rfl
  | node :: rest => simp only [spanlessAll, itemsAll, spanless_items node, spanlessAll_items rest]
termination_by structural nodes

end

private def nestedLoops : List String → List Node
  | [] => []
  | name :: names => [.loop ⟨name, none, "items"⟩ (nestedLoops names) .none]

private theorem nestedLoops_items (names : List String) : itemsAll (nestedLoops names) = names := by
  induction names with
  | nil => rfl
  | cons name names ih => simp [nestedLoops, itemsAll, items, ih]

private theorem identifier_quotable {name : String} (identifier : Directive.isIdentifier name = true) :
    Quotable (name ++ " in " ++ "items") := by
  left
  rw [String.toList_append, String.toList_append, List.append_assoc, List.mem_append]
  rintro (quote | quote)
  · have continues := continues_of_identifier identifier '"' quote
    cases continues
  · exact absurd quote (by decide)

private theorem nestedLoops_printable {names : List String}
    (identifiers : ∀ name ∈ names, Directive.isIdentifier name = true) : PrintableAll (nestedLoops names) := by
  induction names with
  | nil => trivial
  | cons name names ih =>
    obtain ⟨identifier, others⟩ := List.forall_mem_cons.mp identifiers
    have operand : Operand "items" := ⟨⟨by decide, by decide⟩, by decide⟩
    have worded : Worded Directive.readLoop ⟨name, none, "items"⟩ :=
      ⟨name ++ " in " ++ "items", identifier_quotable identifier, readLoop_keyless identifier operand⟩
    exact ⟨⟨worded, ih others⟩, trivial, by simp [startsWithText]⟩

private theorem names_accepted {options : Options} {names : List String}
    (items : ∀ name ∈ names, Directive.isIdentifier name = true)
    (functionName : Directive.isIdentifier options.functionName = true)
    (dataParam : Directive.isIdentifier options.dataParam = true) :
    ∃ source output found, compile source options = .ok output ∧ Template.read source = .ok found ∧
      itemsAll found.body = names := by
  have printable := nestedLoops_printable items
  obtain ⟨chars, printed⟩ := forest_prints _ printable
  obtain ⟨found, read, same⟩ := @printed_read _ printable (String.ofList chars) (by simpa using printed)
  have valid : options.validate = .ok () := by simp [Options.validate, functionName, dataParam]
  refine ⟨String.ofList chars, _, found, compile_ok.mpr ⟨valid, found, read, rfl⟩, read, ?_⟩
  rw [← spanlessAll_items, same, spanlessAll_items, nestedLoops_items]

/-- Any identifiers are accepted for the names that a template and its options choose. A name of the
generated code is only captured by one of these in scope that is equal to it, so none is captured if
they are all different. -/
theorem compile_owns_names (options : Options) :
    (∀ names, (∀ name ∈ names, Directive.isIdentifier name = true) →
      Directive.isIdentifier options.functionName = true → Directive.isIdentifier options.dataParam = true →
        ∃ source output found, compile source options = .ok output ∧ Template.read source = .ok found ∧
          itemsAll found.body = names) ∧
    ∀ source output, compile source options = .ok output →
      ∃ found lines table, Template.read source = .ok found ∧
        forestLines (options.keyToken.resolve options.templateName source) 0 .empty (normalizeAll found.body) =
          (lines, table) ∧
        output = moduleText (table.addLiteral ("var " ++ targetName)) (lines.map Line.text)
          options.functionName options.dataParam ∧
        Everywhere (fun scope name => name ∉ scope.chosen → scope.Owns name)
          (moduleScope table options.functionName options.dataParam) lines ∧
        ((∀ name ∈ chosenNames options found.body, name ∉ "Object" :: ownNames table) →
          Everywhere Scope.Owns (moduleScope table options.functionName options.dataParam) lines) := by
  refine ⟨fun names items functionName dataParam => names_accepted items functionName dataParam, ?_⟩
  intro source output compiled
  obtain ⟨_, found, read, rfl⟩ := compile_ok.mp compiled
  have items : itemsAll (normalizeAll found.body) ⊆ chosenNames options found.body := by
    rw [normalizeAll_items]
    exact fun name member => List.mem_cons_of_mem _ (List.mem_cons_of_mem _ member)
  have stays := @forest_stay _ _ (options.keyToken.resolve options.templateName source) (normalizeAll found.body) 0
    .empty _ (moduleScope_ready _ options found.body) (List.Subset.refl _) items
  refine ⟨found, _, _, read, rfl, compileForest_lines _ _ _ _ _, ?_, ?_⟩
  · exact stays.everywhere.imp fun scope name meant => owns_of_unchosen meant.bound
  · exact fun apart => stays.everywhere.imp fun scope name meant => meant.owns apart

theorem compile_owns_names_keyed :
    ∃ output lines table,
      compile "<li each=\"item, item.id in items\" class=\"row\">hi</li>" { keyToken := .fixed "k" } = .ok output ∧
      output = moduleText (table.addLiteral "var __target") (lines.map Line.text) "description" "data" ∧
      Everywhere Scope.Owns (moduleScope table "description" "data") lines := by
  have read : Template.read "<li each=\"item, item.id in items\" class=\"row\">hi</li>" =
      .ok ⟨[.element "li" [⟨"class", "row"⟩] [.text "hi"] (some ⟨"item", some "item.id", "items"⟩) none
        ⟨0, 53, 1, 1⟩], none⟩ := by decide +kernel
  have compiled := (@compile_ok _ _ { keyToken := .fixed "k" }).mpr ⟨by decide, _, read, rfl⟩
  obtain ⟨found, lines, table, same, generated, written, _, owns⟩ :=
    (compile_owns_names { keyToken := .fixed "k" }).2 _ _ compiled
  cases read.symm.trans same
  have identifiers : table.statics.map Hoisted.identifier = ["hoisted1"] :=
    (congrArg (fun result => result.2.statics.map Hoisted.identifier) generated).symm
  refine ⟨_, lines, table, compiled, written, owns ?_⟩
  simp [chosenNames, itemsAll, items, ownNames, identifiers, targetName]

/-- A loop may give its items the name of the function that renders texts, which is captured then. -/
theorem item_captures_text :
    (¬ ∀ source options output found, compile source options = .ok output → Template.read source = .ok found →
      ∀ name ∈ options.dataParam :: itemsAll found.body,
        name ∉ ownNames (forestLines (options.keyToken.resolve options.templateName source) 0 .empty
          (normalizeAll found.body)).2) ∧
    ¬ ∀ source options output found, compile source options = .ok output → Template.read source = .ok found →
      ∀ lines table, forestLines (options.keyToken.resolve options.templateName source) 0 .empty
          (normalizeAll found.body) = (lines, table) →
        Everywhere Scope.Owns (moduleScope table options.functionName options.dataParam) lines := by
  have read : Template.read "<li each=\"text in items\">hi</li>" =
      .ok ⟨[.element "li" [] [.text "hi"] (some ⟨"text", none, "items"⟩) none ⟨0, 32, 1, 1⟩], none⟩ := by decide +kernel
  have compiled := (@compile_ok _ _ { keyToken := .fixed "k" }).mpr ⟨by decide, _, read, rfl⟩
  constructor
  · intro apart
    exact apart _ _ _ _ compiled read "text" (by simp [itemsAll, items]) (by simp [ownNames])
  · intro owned
    obtain ⟨_, _, _, _, _, _, text, _⟩ := owned _ _ _ _ compiled read _ _ rfl
    have captured : ⟨"text", true⟩ ∈ Scope.lookup
        (inLoop "text" (moduleScope .empty "description" "data")) "text" := by decide
    cases (text "text" (by simp [names])).generated _ captured

end Stencil.Proofs.NameCapture
