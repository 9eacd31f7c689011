import Stencil.Proofs.BalancedCode
import Stencil.Proofs.PrintedTemplate

/-! What holds of every node of a template that was read. Texts, names and code are such that they could
stand where they do, tags are no others than the grammar has elements for, and what is left of a directive
is trimmed and balanced. -/

namespace Stencil.Proofs.TemplateInvariant
open Markup Directive ScannerReading AttributeReading LegibleMarkup SealedMarkup TemplateReading BalancedCode
open PrintedTemplate
open Text (trim trimChars isBlank)

mutual

/-- A node and the nodes inside of it, in document order. -/
def within : Node → List Node
  | .element tag attributes children loop guard span =>
    .element tag attributes children loop guard span :: withinAll children
  | .text content => [.text content]
  | .loop spec children span => .loop spec children span :: withinAll children
  | .script code hoisted => [.script code hoisted]

def withinAll : List Node → List Node
  | [] => []
  | node :: rest => within node ++ withinAll rest

end

structure ProperAttributes (attributes : List Attribute) : Prop where
  distinct : (attributes.map Attribute.name).Nodup
  name : ∀ item ∈ attributes, ProperName item.name
  notEach : ∀ item ∈ attributes, item.name ≠ "each"
  notIf : ∀ item ∈ attributes, item.name ≠ "if"

/-- An expression of a directive, as it is kept. -/
structure ProperExpression (expression : String) : Prop where
  trimmed : trim expression = expression
  balanced : balance expression = .ok ()

structure ProperLoop (spec : LoopSpec) : Prop where
  item : isIdentifier spec.item = true
  key : ∀ key ∈ spec.key, ProperExpression key
  iterable : ProperExpression spec.iterable

structure ProperCondition (condition : String) : Prop where
  expression : ProperExpression condition
  nonempty : condition ≠ ""

/-- What holds of a node, apart from the nodes inside of it. -/
def Proper : Node → Prop
  | .text content => content ≠ "" ∧ ∀ c, c.isAlpha = true ∨ c = '/' ∨ c = '!' → ¬ ['<', c] <:+: content.toList
  | .script code _ => trim code = code ∧ ∀ name, isScriptName name = true → ¬ '<' :: '/' :: name <:+: code.toList
  | .loop spec _ _ => ProperLoop spec
  | .element tag attributes children loop guard _ =>
    PrintableTag tag children ∧ ProperAttributes attributes ∧ (∀ spec ∈ loop, ProperLoop spec) ∧
      ∀ condition ∈ guard.map Guard.condition, ProperCondition condition

private theorem dropWhile_rdropWhile {chars : List Char} (kept : chars.dropWhile isBlank = chars) :
    (chars.rdropWhile isBlank).dropWhile isBlank = chars.rdropWhile isBlank := by
  obtain ⟨rest, same⟩ := List.rdropWhile_prefix isBlank chars
  cases front : chars.rdropWhile isBlank with
  | nil => rfl
  | cons c front' =>
    rw [front] at same
    subst same
    have solid : isBlank c = false := by
      simpa using List.dropWhile_eq_self_iff.mp kept (by simp)
    simp [solid]

theorem trim_trimChars (chars : List Char) : trim (String.ofList (trimChars chars)) = String.ofList (trimChars chars) := by
  have kept : (chars.dropWhile isBlank).dropWhile isBlank = chars.dropWhile isBlank := List.dropWhile_idempotent _ _
  have again : trimChars (trimChars chars) = trimChars chars := by
    change (((chars.dropWhile isBlank).rdropWhile isBlank).dropWhile isBlank).rdropWhile isBlank =
      (chars.dropWhile isBlank).rdropWhile isBlank
    rw [dropWhile_rdropWhile kept, List.rdropWhile_idempotent]
  rw [trim, String.toList_ofList, again]

private theorem trimChars_inside (chars : List Char) : trimChars chars <:+: chars :=
  (List.rdropWhile_prefix isBlank _).isInfix.trans (List.dropWhile_suffix isBlank).isInfix

theorem readCondition_proper {text condition : String} (read : readCondition text = .ok condition) :
    ProperCondition condition := by
  have balanced := readCondition_balanced read
  unfold readCondition at read
  split at read
  next => cases read
  next nonempty =>
    simp only [bind_ok] at read
    obtain ⟨_, _, same⟩ := read
    cases same
    exact ⟨⟨trim_trimChars _, balanced⟩, fun none => nonempty (by simpa using none)⟩

/-- The expressions of a loop are cut out of its text and trimmed. -/
theorem readLoop_parts {text : String} {spec : LoopSpec} (read : Directive.readLoop text = .ok spec) :
    ∃ (item : List Char) (key : Option (List Char)) (iterable : List Char),
      splitLoop? (trimChars text.toList) = some (item, key, iterable) ∧
      spec = ⟨String.ofList item, key.map fun chars => String.ofList (trimChars chars),
        String.ofList (trimChars iterable)⟩ := by
  unfold Directive.readLoop at read
  split at read
  next => cases read
  next item key iterable split =>
    refine ⟨item, key, iterable, split, ?_⟩
    cases key with
    | none =>
      obtain ⟨_, _, same⟩ := bind_ok.mp read
      cases same
      rfl
    | some key =>
      obtain ⟨_, _, later⟩ := bind_ok.mp read
      obtain ⟨_, _, same⟩ := bind_ok.mp later
      cases same
      rfl

theorem readLoop_proper {text : String} {spec : LoopSpec} (read : Directive.readLoop text = .ok spec) :
    ProperLoop spec := by
  obtain ⟨item, keys, iterable⟩ := readLoop_tidy read
  obtain ⟨_, key, _, _, rfl⟩ := readLoop_parts read
  refine ⟨item, ?_, trim_trimChars _, iterable⟩
  intro own member
  obtain ⟨chars, _, rfl⟩ := Option.map_eq_some_iff.mp member
  exact ⟨trim_trimChars chars, keys _ member⟩

private theorem directs_proper {written attributes : List Attribute} {loop : Option LoopSpec}
    {condition : Option String} (directs : Directs written attributes loop condition) :
    attributes.Sublist written ∧ (∀ item ∈ attributes, item.name ≠ "each" ∧ item.name ≠ "if") ∧
      (∀ spec ∈ loop, ProperLoop spec) ∧ ∀ expression ∈ condition, ProperCondition expression := by
  induction directs with
  | nil => simp
  | static notEach notIf _ ih =>
    obtain ⟨part, others, loops, conditions⟩ := ih
    exact ⟨part.cons_cons _, by simpa using ⟨⟨notEach, notIf⟩, others⟩, loops, conditions⟩
  | each read _ ih =>
    obtain ⟨part, others, _, conditions⟩ := ih
    exact ⟨part.cons _, others, by simpa using readLoop_proper read, conditions⟩
  | guard read _ ih =>
    obtain ⟨part, others, loops, _⟩ := ih
    exact ⟨part.cons _, others, loops, by simpa using readCondition_proper read⟩

private theorem fields_named {opening : Opening} {ending : List Char} (proper : ProperOpening opening ending) :
    ∀ item ∈ opening.fields.map attributeOf, ProperName item.name := by
  intro item member
  obtain ⟨field, inside, rfl⟩ := List.mem_map.mp member
  have given := proper.fields field inside
  refine ⟨?_, by simpa [attributeOf] using given.name⟩
  intro none
  exact given.name_ne (by simpa [attributeOf] using none)

private theorem made_proper {opening : Opening} {ending : List Char} {children : List Node} {node : Node}
    (made : Makes (String.ofList opening.tag) (opening.fields.map attributeOf) children node)
    (proper : ProperOpening opening ending) (name : isTagName opening.tag = true)
    (notScript : isScriptName opening.tag = false) (empty : isVoidName opening.tag = true → children = []) :
    within node = node :: withinAll children ∧ Proper node := by
  generalize list : opening.fields.map attributeOf = written at made
  generalize string : String.ofList opening.tag = tag at made
  cases made with
  | element other distinct directs =>
    subst list string
    obtain ⟨part, others, loops, conditions⟩ := directs_proper directs
    refine ⟨rfl, ⟨by simpa using name, by simpa using notScript, other, by simpa using empty⟩, ?_, loops, conditions⟩
    exact
      { distinct := distinct.sublist (part.map _)
        name := fun item member => fields_named proper item (part.subset member)
        notEach := fun item member => (others item member).1
        notIf := fun item member => (others item member).2 }
  | loop _ read => exact ⟨rfl, readLoop_proper read⟩

private theorem denotes_proper {pieces : List Piece} {nodes : List Node} (denotes : Denotes pieces nodes)
    {follow : List Char} (legible : LegibleAll pieces follow) : ∀ node ∈ withinAll nodes, Proper node := by
  induction denotes generalizing follow with
  | nil => simp [withinAll]
  | comment _ ih => exact ih legible.2
  | text _ ih =>
    obtain ⟨⟨nonempty, passes, ends⟩, later⟩ := legible
    have clear := lacks_startsTag.mp (lacks_of_passes passes ends)
    simp only [withinAll, within, List.singleton_append, List.mem_cons, forall_eq_or_imp]
    exact ⟨⟨fun none => nonempty (by simpa using none), by simpa using clear⟩, ih later⟩
  | @script _ body _ _ _ _ _ _ _ ih =>
    obtain ⟨⟨_, _, lacks, _⟩, later⟩ := legible
    simp only [withinAll, within, List.singleton_append, List.mem_cons, forall_eq_or_imp]
    refine ⟨⟨trim_trimChars body, ?_⟩, ih later⟩
    intro name script inside
    rw [String.toList_ofList] at inside
    exact lacks_closesScript.mp lacks name script (inside.trans (trimChars_inside body))
  | @leaf opening _ _ _ _ made _ ih =>
    obtain ⟨first, later⟩ := legible
    obtain ⟨name, notScript, _, _, proper, _, _⟩ := legible_leaf first
    obtain ⟨shape, own⟩ := made_proper made proper name notScript (fun _ => rfl)
    simp only [withinAll, shape, List.singleton_append, List.mem_cons, forall_eq_or_imp]
    exact ⟨own, ih later⟩
  | element inside made _ ihInside ih =>
    obtain ⟨⟨ordinary, proper, content, _⟩, later⟩ := legible
    have notVoid := ordinary.notVoid
    obtain ⟨shape, own⟩ := made_proper made proper ordinary.name ordinary.notScript (by simp [notVoid])
    simp only [withinAll, shape, List.cons_append, List.mem_cons, List.mem_append]
    rintro node (rfl | deeper | beside)
    · exact own
    · exact ihInside content node deeper
    · exact ih later node beside

/-- Every node of a template that was read is proper, whatever the source. -/
theorem read_proper (source : String) (found : Template) (read : Template.read source = .ok found) :
    ∀ node ∈ withinAll found.body, Proper node := by
  obtain ⟨pieces, _, legible, denotes⟩ := read_sound read
  exact denotes_proper denotes legible

/-- Directives with blanks around them, a void element and a script. -/
def listed : List Node :=
  [.element "ul" [] [.element "li" [] [.text "1 < 2", .element "br" [] [] none none ⟨45, 49, 1, 46⟩]
      (some ⟨"x", some "x.id", "xs"⟩) (some ⟨"ok", ⟨30, 39, 1, 31⟩⟩) ⟨4, 54, 1, 5⟩] none none ⟨0, 59, 1, 1⟩,
    .script "g()" false]

theorem read_proper_listed :
    Template.read "<ul><li each='x, x.id in xs ' if=' ok '>1 < 2<br></li></ul><script> g() </script>" =
        .ok ⟨listed, none⟩ ∧
      ∀ node ∈ withinAll listed, Proper node := by
  have read : Template.read "<ul><li each='x, x.id in xs ' if=' ok '>1 < 2<br></li></ul><script> g() </script>" =
      .ok ⟨listed, none⟩ := by decide +kernel
  exact ⟨read, read_proper _ _ read⟩

end Stencil.Proofs.TemplateInvariant
