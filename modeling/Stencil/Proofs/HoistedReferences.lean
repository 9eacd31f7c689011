import Stencil.Proofs.HoistInvariant
import Stencil.Proofs.OpeningCalls

/-! Hoisted references. Generation declares the attributes of a forest in document order, each list
under the next number when its text is first seen, and every opening call refers to the declaration
of its own element. -/

namespace Stencil.Proofs.HoistedReferences
open HoistTable HoistInvariant IndentedLines OpeningCalls

mutual

/-- The elements of a node with their attributes, each before the ones inside of it. -/
def elements : Node → List (String × List Attribute)
  | .text _ => []
  | .script _ _ => []
  | .loop _ children _ => elementsAll children
  | .element tag attributes children _ _ _ => (tag, attributes) :: elementsAll children

def elementsAll : List Node → List (String × List Attribute)
  | [] => []
  | node :: rest => elements node ++ elementsAll rest

end

mutual

/-- The scripts of a node that are lifted out of the render function. -/
def lifted : Node → List String
  | .text _ => []
  | .script code hoisted => if hoisted then [code] else []
  | .loop _ children _ => liftedAll children
  | .element _ _ children _ _ _ => liftedAll children

def liftedAll : List Node → List String
  | [] => []
  | node :: rest => lifted node ++ liftedAll rest

end

/-- The attribute lists of the elements that have any. -/
def attributed (elements : List (String × List Attribute)) : List (List Attribute) :=
  (elements.map Prod.snd).filter fun attributes => !attributes.isEmpty

/-- The texts that elements declare. -/
def texts (elements : List (String × List Attribute)) : List String :=
  (attributed elements).map Attribute.canonical

/-- The texts that are not known yet, as they are first seen. -/
def fresh (known texts : List String) : List String := (texts.filter (· ∉ known)).eraseDups

/-- The declarations of what is fresh among some texts, under the numbers that come next. -/
def declarations (statics : List Hoisted) (texts : List String) : List Hoisted :=
  (fresh (statics.map Hoisted.text) texts).mapIdx fun index text =>
    ⟨identifierAt (statics.length + index + 1), text⟩

/-- A table with some texts declared and some code lifted. -/
def extended (table : HoistTable) (texts codes : List String) : HoistTable where
  statics := table.statics ++ declarations table.statics texts
  literals := table.literals ++ codes
  count := table.count + (declarations table.statics texts).length

private theorem fresh_append (known first second : List String) :
    fresh known (first ++ second) = fresh known first ++ fresh (known ++ fresh known first) second := by
  simp only [fresh, List.filter_append, List.eraseDups_append, List.removeAll, List.filter_filter, List.mem_append,
    List.mem_eraseDups]
  congr 2
  apply List.filter_congr
  intro text _
  simp only [List.mem_filter, List.elem_eq_mem]
  grind

private theorem declarations_texts (statics : List Hoisted) (texts : List String) :
    (declarations statics texts).map Hoisted.text = fresh (statics.map Hoisted.text) texts := by
  apply List.ext_getElem
  · simp [declarations]
  · simp [declarations]

private theorem declarations_length (statics : List Hoisted) (texts : List String) :
    (declarations statics texts).length = (fresh (statics.map Hoisted.text) texts).length := by
  simp [declarations]

private theorem declarations_append (statics : List Hoisted) (first second : List String) :
    declarations statics (first ++ second) =
      declarations statics first ++ declarations (statics ++ declarations statics first) second := by
  have later : declarations (statics ++ declarations statics first) second =
      (fresh (statics.map Hoisted.text ++ fresh (statics.map Hoisted.text) first) second).mapIdx fun index text =>
        ⟨identifierAt (statics.length + (index + (fresh (statics.map Hoisted.text) first).length) + 1), text⟩ := by
    rw [declarations, List.map_append, declarations_texts, List.length_append, declarations_length]
    congr 1
    funext index text
    rw [Nat.add_assoc statics.length, Nat.add_comm index]
  rw [later, declarations, fresh_append, List.mapIdx_append]
  rfl

private theorem extended_nil (table : HoistTable) : extended table [] [] = table := by
  simp [extended, declarations, fresh]

private theorem extended_append (table : HoistTable) (texts texts' codes codes' : List String) :
    extended (extended table texts codes) texts' codes' = extended table (texts ++ texts') (codes ++ codes') := by
  simp [extended, declarations_append, Nat.add_assoc]

private theorem fresh_known {known : List String} {text : String} (member : text ∈ known) : fresh known [text] = [] := by
  simp [fresh, member]

private theorem fresh_unknown {known : List String} {text : String} (unknown : text ∉ known) :
    fresh known [text] = [text] := by
  simp [fresh, unknown, List.eraseDups_cons]

private theorem addStatics_extended {table : HoistTable} (numbered : Numbered table) (text : String) :
    (table.addStatics text).2 = extended table [text] [] := by
  rcases addStatics_cases table text with ⟨declared, member, rfl, result⟩ | ⟨unknown, result⟩
  · rw [result, extended, declarations, fresh_known (List.mem_map_of_mem member)]
    simp
  · rw [result, extended, declarations, fresh_unknown unknown]
    simp [numbered.counted, size]

private theorem texts_append (first second : List (String × List Attribute)) :
    texts (first ++ second) = texts first ++ texts second := by
  simp [texts, attributed]

private theorem hoistAttributes_extended {table : HoistTable} (numbered : Numbered table) (tag : String)
    (attributes : List Attribute) : (hoistAttributes table attributes).2 = extended table (texts [(tag, attributes)]) [] := by
  cases attributes with
  | nil => exact (extended_nil table).symm
  | cons item rest => exact addStatics_extended numbered _

mutual

private theorem lines_extended (node : Node) (token : String) (depth : Nat) (key : Option Key) {table : HoistTable}
    (numbered : Numbered table) :
    (node.lines token depth key table).2 = extended table (texts (elements node)) (lifted node) := by
  match node with
  | .text content => exact (extended_nil table).symm
  | .script code hoisted =>
    cases hoisted with
    | false => exact (extended_nil table).symm
    | true => simp [Node.lines, elements, lifted, texts, attributed, extended, declarations, fresh, addLiteral]
  | .loop spec children span => exact children_extended children token _ _ _ numbered
  | .element tag attributes children loop guard span =>
    have own := numbered_kept.attributes attributes numbered
    have whole : extended (hoistAttributes table attributes).2 (texts (elementsAll children)) (liftedAll children) =
        extended table (texts ((tag, attributes) :: elementsAll children)) (liftedAll children) := by
      rw [hoistAttributes_extended numbered tag, extended_append, ← texts_append]
      rfl
    cases loop with
    | none => exact (forest_extended children token _ own).trans whole
    | some spec => exact (forest_extended children token _ own).trans whole
termination_by structural node

private theorem forest_extended (nodes : List Node) (token : String) (depth : Nat) {table : HoistTable}
    (numbered : Numbered table) :
    (forestLines token depth table nodes).2 = extended table (texts (elementsAll nodes)) (liftedAll nodes) := by
  match nodes with
  | [] => exact (extended_nil table).symm
  | node :: rest =>
    rw [elementsAll, liftedAll, texts_append, ← extended_append, ← lines_extended node token depth none numbered]
    exact forest_extended rest token depth (numbered_kept.lines node numbered)
termination_by structural nodes

private theorem children_extended (nodes : List Node) (token : String) (depth count ordinal : Nat) {table : HoistTable}
    (numbered : Numbered table) :
    (childLines token depth count ordinal table nodes).2 = extended table (texts (elementsAll nodes)) (liftedAll nodes) := by
  match nodes with
  | [] => exact (extended_nil table).symm
  | node :: rest =>
    rw [elementsAll, liftedAll, texts_append, ← extended_append,
      ← lines_extended node token depth (some (.ofChild count ordinal)) numbered]
    exact children_extended rest token depth count _ (numbered_kept.lines node numbered)
termination_by structural nodes

end

/-- The lines of scripts, which may be any statements. -/
def isScript (line : Line) : Bool :=
  match line.statement with
  | .script _ => true
  | _ => false

/-- The arguments of the calls that open elements, scripts left out. -/
def openings (lines : List Line) : List (List String) :=
  (lines.filter fun line => !isScript line).filterMap fun line => openingArguments? line.text

private theorem openings_append (first second : List Line) :
    openings (first ++ second) = openings first ++ openings second := by
  simp [openings]

private theorem openings_other (depth : Nat) {statement : Statement} (lines : List Line)
    (notOpening : ∀ tag key statics, statement ≠ .openElement tag key statics) :
    openings (⟨depth, statement⟩ :: lines) = openings lines := by
  by_cases script : ∃ code, statement = .script code
  · obtain ⟨code, rfl⟩ := script
    simp [openings, isScript]
  · have none := openingArguments_none depth notOpening (not_exists.mp script)
    simp only [openings, List.filter_cons]
    split <;> simp [none]

private theorem openings_openElement (depth : Nat) (tag : String) (key : Option Key) {statics : Option String}
    (numbered : ∀ identifier ∈ statics, ∃ number, identifier = identifierAt number) (lines : List Line) :
    openings (⟨depth, .openElement tag key statics⟩ :: lines) = Statement.arguments tag key statics :: openings lines := by
  have whole : ∀ identifier ∈ statics, Whole identifier.toList := by
    intro identifier member
    obtain ⟨number, rfl⟩ := numbered identifier member
    exact whole_identifierAt number
  have read := openingArguments_openElement depth tag key statics whole
  simp [openings, isScript, read]

private theorem openings_guarded (depth : Nat) (guard : Option Guard) (body : List Line) :
    openings (guarded depth guard body) = openings body := by
  cases guard with
  | none => rfl
  | some guard =>
    rw [guarded, List.cons_append, openings_other _ _ (by simp), openings_append, openings_other _ _ (by simp)]
    exact List.append_nil _

private theorem openings_looped (token : String) (depth : Nat) (spec : LoopSpec) (body : List Line) :
    openings (looped token depth spec body) = openings body := by
  simp only [looped, List.cons_append, openings_other, ne_eq, reduceCtorEq, not_false_eq_true, implies_true,
    openings_append]
  exact List.append_nil _

/-- The arguments of an element. Its attributes are declared under the last of them if it has any. -/
inductive Refers (declared : List Hoisted) : String × List Attribute → List String → Prop where
  | bare (tag : String) (key : Option Key) : Refers declared (tag, []) (Statement.arguments tag key none)
  | hoisted {tag : String} {attributes : List Attribute} (key : Key) {number : Nat} (nonempty : attributes ≠ [])
      (known : ⟨identifierAt number, Attribute.canonical attributes⟩ ∈ declared) :
      Refers declared (tag, attributes) (Statement.arguments tag (some key) (some (identifierAt number)))

private theorem opening_refers {declared : List Hoisted} {table : HoistTable} (numbered : Numbered table)
    (token tag : String) (depth : Nat) (key : Option Key) (attributes : List Attribute) (lines : List Line)
    (grown : (hoistAttributes table attributes).2.statics ⊆ declared) :
    ∃ arguments, Refers declared (tag, attributes) arguments ∧
      openings (⟨depth, .openElement tag (keyArgument token key attributes) (hoistAttributes table attributes).1⟩ :: lines) =
        arguments :: openings lines := by
  cases attributes with
  | nil => exact ⟨_, .bare tag _, openings_openElement depth tag _ (by simp [hoistAttributes]) lines⟩
  | cons item rest =>
    have known := addStatics_declared table (Attribute.canonical (item :: rest))
    obtain ⟨number, named⟩ := (numbered_kept.statics _ _ numbered).number_exists known
    have keyed : ∃ own, keyArgument token key (item :: rest) = some own := by
      cases key with
      | none => exact ⟨.token token, rfl⟩
      | some own => exact ⟨own, rfl⟩
    obtain ⟨own, keyed⟩ := keyed
    have statics : (hoistAttributes table (item :: rest)).1 = some (identifierAt number) := congrArg some named
    rw [keyed, statics]
    refine ⟨_, .hoisted own (by simp) ?_, openings_openElement depth tag _ (by simp) lines⟩
    exact grown (named ▸ known)

private theorem element_refers {declared : List Hoisted} {table : HoistTable} {token tag : String} {outer inner : Nat}
    {guard : Option Guard} {key : Option Key} {attributes : List Attribute} {content : List Line}
    {children : List (String × List Attribute)} (numbered : Numbered table)
    (grown : (hoistAttributes table attributes).2.statics ⊆ declared)
    (inside : List.Forall₂ (Refers declared) children (openings content)) :
    List.Forall₂ (Refers declared) ((tag, attributes) :: children)
      (openings (guarded outer guard
        (⟨inner, .openElement tag (keyArgument token key attributes) (hoistAttributes table attributes).1⟩ :: content ++
          [⟨inner, .closeElement tag⟩]))) := by
  obtain ⟨arguments, refers, read⟩ :=
    opening_refers numbered token tag inner key attributes (content ++ [⟨inner, .closeElement tag⟩]) grown
  rw [openings_guarded, List.cons_append, read, openings_append, openings_other _ _ (by simp)]
  exact .cons refers (by simpa [openings] using inside)

mutual

private theorem lines_refer {declared : List Hoisted} {token : String} (node : Node) {depth : Nat} {key : Option Key}
    {table : HoistTable} (numbered : Numbered table) (grown : (node.lines token depth key table).2.statics ⊆ declared) :
    List.Forall₂ (Refers declared) (elements node) (openings (node.lines token depth key table).1) := by
  match node with
  | .text content =>
    rw [Node.lines, openings_other _ _ (by simp)]
    exact .nil
  | .script code hoisted =>
    cases hoisted with
    | true => exact .nil
    | false =>
      rw [show (Node.script code false).lines token depth key table = ([⟨depth, .script code⟩], table) from rfl,
        openings_other _ _ (by simp)]
      exact .nil
  | .loop spec children span =>
    rw [Node.lines, openings_looped]
    exact children_refer children numbered grown
  | .element tag attributes children loop guard span =>
    have before := List.Subset.trans hoistAttributes_grows.subset grown
    have own := numbered_kept.attributes attributes numbered
    cases loop with
    | none => exact element_refers numbered before (forest_refer children own grown)
    | some spec =>
      simp only [Node.lines, openings_looped]
      exact element_refers numbered before (forest_refer children own grown)
termination_by structural node

private theorem forest_refer {declared : List Hoisted} {token : String} (nodes : List Node) {depth : Nat}
    {table : HoistTable} (numbered : Numbered table) (grown : (forestLines token depth table nodes).2.statics ⊆ declared) :
    List.Forall₂ (Refers declared) (elementsAll nodes) (openings (forestLines token depth table nodes).1) := by
  match nodes with
  | [] => exact .nil
  | node :: rest =>
    have before := List.Subset.trans (forestLines_grows rest).subset grown
    rw [forestLines, openings_append, elementsAll]
    exact List.rel_append (lines_refer node numbered before) (forest_refer rest (numbered_kept.lines node numbered) grown)
termination_by structural nodes

private theorem children_refer {declared : List Hoisted} {token : String} (nodes : List Node) {depth count ordinal : Nat}
    {table : HoistTable} (numbered : Numbered table)
    (grown : (childLines token depth count ordinal table nodes).2.statics ⊆ declared) :
    List.Forall₂ (Refers declared) (elementsAll nodes) (openings (childLines token depth count ordinal table nodes).1) := by
  match nodes with
  | [] => exact .nil
  | node :: rest =>
    have before := List.Subset.trans (childLines_grows rest).subset grown
    rw [childLines, openings_append, elementsAll]
    exact List.rel_append (lines_refer node numbered before) (children_refer rest (numbered_kept.lines node numbered) grown)
termination_by structural nodes

end

private theorem entry_unique {table : HoistTable} (numbered : Numbered table) {identifier text : String}
    (known : ⟨identifier, text⟩ ∈ table.statics) :
    table.statics.filter (·.identifier = identifier) = [⟨identifier, text⟩] := by
  have distinct := numbered.distinct
  obtain ⟨before, behind, split⟩ := List.append_of_mem known
  rw [split, List.map_append, List.map_cons, List.nodup_append, List.nodup_cons] at distinct
  obtain ⟨_, ⟨notBehind, _⟩, apart⟩ := distinct
  have none_before : before.filter (·.identifier = identifier) = [] := by
    rw [List.filter_eq_nil_iff]
    intro other member same
    exact apart _ (List.mem_map_of_mem member) _ List.mem_cons_self (of_decide_eq_true same)
  have none_behind : behind.filter (·.identifier = identifier) = [] := by
    rw [List.filter_eq_nil_iff]
    intro other member same
    have named : other.identifier ∈ behind.map Hoisted.identifier := List.mem_map_of_mem member
    exact notBehind (of_decide_eq_true same ▸ named)
  rw [split, List.filter_append, List.filter_cons_of_pos (by simp), none_before, none_behind]
  rfl

private theorem references_known {declared : List Hoisted} {elements : List (String × List Attribute)}
    {calls : List (List String)} (refers : List.Forall₂ (Refers declared) elements calls) :
    List.Forall₂ (fun attributes identifier => ⟨identifier, Attribute.canonical attributes⟩ ∈ declared)
      (attributed elements) (calls.filterMap (·[2]?)) := by
  induction refers with
  | nil => exact .nil
  | cons refers _ ih =>
    cases refers with
    | bare tag key =>
      cases key with
      | none => exact ih
      | some key => exact ih
    | hoisted key nonempty known =>
      have kept := List.isEmpty_eq_false_iff.mpr nonempty
      simpa [attributed, kept, Statement.arguments] using ⟨known, ih⟩

/-- The tag and the key of an element are never taken for an identifier. -/
private theorem argument_unnumbered {tag argument : String} {key : Option Key}
    (member : argument ∈ Statement.arguments tag key none) (number : Nat) : argument ≠ identifierAt number := by
  have quote : ∀ content, (Text.quoted content).toList.head? = some '"' := by
    simp [Literals.quoted_toList, Text.quotedChars]
  have first : argument.toList.head? = some '"' ∨ argument.toList.head? = some '$' := by
    simp only [Statement.arguments, Option.toList_none, List.append_nil, List.mem_cons, Option.mem_toList,
      Option.map_eq_some_iff] at member
    rcases member with rfl | ⟨own, rfl, rfl⟩
    · exact Or.inl (quote tag)
    · cases own with
      | token content => exact Or.inl (quote content)
      | iteration => exact Or.inr (by simp [Key.text])
      | child ordinal => exact Or.inr (by simp [Key.text])
  rintro rfl
  simp [identifierAt] at first

/-- A call opens an element: it names the tag, and it has a third argument if there are attributes.
No other argument is an identifier of the table. -/
structure Opens (table : HoistTable) (element : String × List Attribute) (arguments : List String) : Prop where
  tag : arguments.head? = some (Text.quoted element.1)
  statics : arguments[2]?.isSome = !element.2.isEmpty
  others : ∀ argument ∈ arguments.take 2, argument ∉ table.statics.map Hoisted.identifier

private theorem opens_of_refers {table : HoistTable} (numbered : Numbered table) {element : String × List Attribute}
    {arguments : List String} (refers : Refers table.statics element arguments) : Opens table element arguments := by
  have unnumbered : ∀ tag key, ∀ argument ∈ Statement.arguments tag key none,
      argument ∉ table.statics.map Hoisted.identifier := by
    intro tag key argument member named
    obtain ⟨hoisted, inside, rfl⟩ := List.mem_map.mp named
    obtain ⟨number, same⟩ := numbered.number_exists inside
    exact argument_unnumbered member number same
  cases refers with
  | bare tag key =>
    refine ⟨rfl, ?_, fun argument member => unnumbered tag key argument (List.mem_of_mem_take member)⟩
    cases key with
    | none => rfl
    | some key => rfl
  | @hoisted tag attributes key number nonempty known =>
    exact ⟨rfl, by simp [Statement.arguments, nonempty], unnumbered tag (some key)⟩

/-- The table after a forest, and the calls of its elements. -/
structure Resolved (table final : HoistTable) (forest : List Node) (calls : List (List String)) : Prop where
  statics : final.statics = table.statics ++ declarations table.statics (texts (elementsAll forest))
  literals : final.literals = table.literals ++ liftedAll forest
  opened : List.Forall₂ (Opens final) (elementsAll forest) calls
  references : List.Forall₂ (fun attributes identifier =>
      final.statics.filter (·.identifier = identifier) = [⟨identifier, Attribute.canonical attributes⟩])
    (attributed (elementsAll forest)) (calls.filterMap (·[2]?))

/-- Whatever table a session has come to, a forest adds its own declarations and code to it, in
document order, and refers to the declarations that belong to its elements. -/
theorem generate_resolves (token : String) (table : HoistTable) (forest : List Node) (reachable : Reachable table) :
    (generate token table forest).1 = (forestLines token 0 table forest).1.map Line.text ∧
      Resolved table (generate token table forest).2 forest (openings (forestLines token 0 table forest).1) := by
  have numbered := reachable.numbered
  have finished : Numbered (generate token table forest).2 := numbered_kept.generate token forest numbered
  rw [generate_lines] at finished ⊢
  have grown := forest_extended forest token 0 numbered
  have refers : List.Forall₂ (Refers (forestLines token 0 table forest).2.statics) (elementsAll forest)
      (openings (forestLines token 0 table forest).1) := forest_refer forest numbered (List.Subset.refl _)
  refine ⟨rfl, congrArg HoistTable.statics grown, congrArg HoistTable.literals grown, ?_, ?_⟩
  · exact refers.imp fun element arguments => opens_of_refers finished
  · exact (references_known refers).imp fun attributes identifier => entry_unique finished

/-- Attributes that a looped and a plain element share, with scripts inside and between. -/
def shared : List Node :=
  [.element "ul" [] [.element "li" [⟨"class", "on"⟩] [.script "elementOpen(x)" false]
      (some ⟨"i", none, "items"⟩) (some ⟨"i", .none⟩) .none] none none .none,
    .script "var y" true, .element "p" [⟨"class", "on"⟩] [] none none .none]

theorem generate_resolves_shared :
    Resolved ⟨[⟨"hoisted1", "[]"⟩], ["var x"], 1⟩ (generate "k" ⟨[⟨"hoisted1", "[]"⟩], ["var x"], 1⟩ shared).2 shared
      (openings (forestLines "k" 0 ⟨[⟨"hoisted1", "[]"⟩], ["var x"], 1⟩ shared).1) := by
  have reachable : Reachable ⟨[⟨"hoisted1", "[]"⟩], ["var x"], 1⟩ :=
    ⟨"k", [.addStatics "[]", .addLiteral "var x"], by decide⟩
  exact (generate_resolves "k" _ shared reachable).2

end Stencil.Proofs.HoistedReferences
