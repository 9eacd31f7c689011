import Stencil.Proofs.CompiledModule
import Stencil.Proofs.PrintedTemplate

/-! The two forms of a loop around one element, as an attribute of the element and as an element of
its own, are compiled to the same module. -/

namespace Stencil.Proofs.LoopForms
open Markup LegibleMarkup SealedMarkup TemplateReading PrintedTemplate CompiledModule

def inQuotes (attributes : List Attribute) : String :=
  String.join (attributes.map fun item => " " ++ item.name ++ "=\"" ++ item.value ++ "\"")

/-- An element with these attributes around this content. -/
def inTag (tag : String) (attributes : List Attribute) (content : String) : String :=
  "<" ++ tag ++ inQuotes attributes ++ ">" ++ content ++ "</" ++ tag ++ ">"

/-- Attributes that can be written in double quotes. -/
structure Writable (attributes : List Attribute) : Prop where
  name : ∀ item ∈ attributes, ProperName item.name
  value : ∀ item ∈ attributes, '"' ∉ item.value.toList

private theorem Writable.cons {item : Attribute} {attributes : List Attribute} (name : ProperName item.name)
    (value : '"' ∉ item.value.toList) (rest : Writable attributes) : Writable (item :: attributes) :=
  ⟨by simpa using ⟨name, rest.name⟩, by simpa using ⟨value, rest.value⟩⟩

private theorem inQuotes_prints {attributes : List Attribute} (lacks : ∀ item ∈ attributes, '"' ∉ item.value.toList) :
    PrintsAttributes attributes (inQuotes attributes).toList := by
  induction attributes with
  | nil => exact .nil
  | cons item rest ih =>
    simp only [List.mem_cons, forall_eq_or_imp] at lacks
    have printed := PrintsAttributes.cons (by decide) lacks.1 (ih lacks.2)
    simpa [inQuotes] using printed

private theorem inTag_piece {tag content : String} {attributes : List Attribute} {pieces : List Piece}
    (ordinary : Ordinary tag.toList) (writable : Writable attributes) (written : content.toList = writeAll pieces)
    (legible : LegibleAll pieces []) :
    ∃ piece, (inTag tag attributes content).toList = writeAll [piece] ∧ LegibleAll [piece] [] ∧
      ∀ nodes, Denotes [piece] nodes ↔
        ∃ children node, nodes = [node] ∧ Denotes pieces children ∧ Makes tag attributes children node := by
  obtain ⟨fields, printed, same, proper⟩ := opening_of_prints (inQuotes_prints writable.value) writable.name
  let opening : Opening := ⟨tag.toList, fields, []⟩
  have inside := (legibleAll_moved pieces legible (@closing_sealed _ [] ordinary (by simp) [])).1
  refine ⟨.element opening pieces [], ?_, ⟨⟨ordinary, properOpening_quoted _ proper, inside, by simp⟩, trivial⟩, ?_⟩
  · simp [inTag, opening, writeAll, Piece.write, Opening.write, closingTag, printed, written]
  · intro nodes
    constructor
    · intro denotes
      cases denotes with
      | @element _ _ _ _ children node _ content made rest =>
        cases rest
        exact ⟨children, node, rfl, content, by simpa [opening, same] using made⟩
    · rintro ⟨children, node, rfl, content, made⟩
      exact .element content (by simpa [opening, same] using made) .nil

private theorem makes_plain {tag : String} {attributes : List Attribute} {children : List Node} {node : Node}
    (other : tag ≠ "each") (unlooped : ∀ item ∈ attributes, item.name ≠ "each") :
    Makes tag attributes children node ↔
      ∃ statics guard span, (attributes.map Attribute.name).Nodup ∧
        Directs attributes statics none (guard.map Guard.condition) ∧
        node = .element tag statics children none guard span := by
  have absent : "each" ∉ attributes.map Attribute.name := by simpa using unlooped
  constructor
  · intro made
    cases made with
    | @element _ _ statics loop guard _ span _ distinct directs =>
      cases directs.loop_none absent
      exact ⟨statics, guard, span, distinct, directs, rfl⟩
    | loop => exact absurd rfl other
  · rintro ⟨statics, guard, span, distinct, directs, rfl⟩
    exact .element other distinct directs

private theorem directs_each {directive : String} {written attributes : List Attribute} {loop : Option LoopSpec}
    {condition : Option String} (directs : Directs (⟨"each", directive⟩ :: written) attributes loop condition) :
    ∃ spec, Directive.readLoop directive = .ok spec ∧ loop = some spec ∧ Directs written attributes none condition := by
  generalize all : (⟨"each", directive⟩ : Attribute) :: written = fields at directs
  cases directs with
  | nil => cases all
  | static notEach =>
    cases all
    exact absurd rfl notEach
  | each read rest =>
    cases all
    exact ⟨_, read, rfl, rest⟩
  | guard => simp at all

private theorem makes_looped {tag directive : String} {attributes : List Attribute} {children : List Node} {node : Node}
    (other : tag ≠ "each") (unlooped : ∀ item ∈ attributes, item.name ≠ "each") :
    Makes tag (⟨"each", directive⟩ :: attributes) children node ↔
      ∃ spec statics guard span, Directive.readLoop directive = .ok spec ∧ (attributes.map Attribute.name).Nodup ∧
        Directs attributes statics none (guard.map Guard.condition) ∧
        node = .element tag statics children (some spec) guard span := by
  constructor
  · intro made
    cases made with
    | @element _ _ statics loop guard _ span _ distinct directs =>
      obtain ⟨spec, read, rfl, rest⟩ := directs_each directs
      exact ⟨spec, statics, guard, span, read, (List.nodup_cons.mp distinct).2, rest, rfl⟩
    | loop => exact absurd rfl other
  · rintro ⟨spec, statics, guard, span, read, distinct, directs, rfl⟩
    refine .element other (List.nodup_cons.mpr ⟨?_, distinct⟩) (.each read directs)
    simpa using unlooped

private theorem makes_loop {directive : String} {children : List Node} {node : Node} :
    Makes "each" [⟨"expression", directive⟩] children node ↔
      ∃ spec span, Directive.readLoop directive = .ok spec ∧ node = .loop spec children span := by
  constructor
  · intro made
    cases made with
    | element other => exact absurd rfl other
    | @loop _ _ spec _ span _ read => exact ⟨spec, span, read, rfl⟩
  · rintro ⟨spec, span, read, rfl⟩
    exact .loop (Or.inl rfl) read

private theorem normal_alike {tag : String} {statics : List Attribute} {children : List Node} {spec : LoopSpec}
    {guard : Option Guard} {one two three : Text.Span} :
    spanlessAll (normalizeAll [.element tag statics children (some spec) guard one]) =
      spanlessAll (normalizeAll [.loop spec [.element tag statics children none guard two] three]) := by
  simp [normalizeAll, Node.normalize, Node.isBlankText, spanless, spanlessAll]

/-- A source whose markup stands for the same, up to spans and normal form, is compiled the same. -/
private theorem compile_transfer {first second output token : String} {options : Options} {pieces others : List Piece}
    (fixed : options.keyToken = .fixed token) (written : first.toList = writeAll pieces) (legible : LegibleAll pieces [])
    (written' : second.toList = writeAll others) (legible' : LegibleAll others [])
    (alike : ∀ nodes, Denotes pieces nodes → ∃ nodes', Denotes others nodes' ∧
      spanlessAll (normalizeAll nodes) = spanlessAll (normalizeAll nodes'))
    (compiled : compile first options = .ok output) : compile second options = .ok output := by
  obtain ⟨valid, found, read, same⟩ := compile_ok.mp compiled
  obtain ⟨nodes, denotes, equal⟩ := alike found.body (read_denotes written legible read)
  obtain ⟨found', read', spans⟩ := read_complete written' legible' denotes
  refine compile_ok.mpr ⟨valid, found', read', ?_⟩
  have bodies : spanlessAll (normalizeAll found'.body) = spanlessAll (normalizeAll found.body) := by
    rw [← normalizeAll_spanless, spans, normalizeAll_spanless, equal]
  rw [compileForest_spanless bodies, ← same, fixed]
  rfl

/-- A loop is compiled the same as an attribute of its element and as an element around it. -/
theorem compile_loop_forms (tag directive content token : String) (attributes : List Attribute) (options : Options)
    (ordinary : Ordinary tag.toList) (notEach : tag ≠ "each") (unquoted : '"' ∉ directive.toList)
    (writable : Writable attributes) (unlooped : ∀ item ∈ attributes, item.name ≠ "each")
    (readable : ∃ inner, Template.read content = .ok inner) (fixed : options.keyToken = .fixed token) (output : String) :
    compile (inTag tag (⟨"each", directive⟩ :: attributes) content) options = .ok output ↔
      compile (inTag "each" [⟨"expression", directive⟩] (inTag tag attributes content)) options = .ok output := by
  obtain ⟨inner, read⟩ := readable
  obtain ⟨pieces, written, legible, _⟩ := read_sound read
  have looped : Writable (⟨"each", directive⟩ :: attributes) := .cons (directive_names _ (by simp)) unquoted writable
  have single : Writable [⟨"expression", directive⟩] :=
    .cons (directive_names _ (by simp)) unquoted ⟨by simp, by simp⟩
  have each : Ordinary "each".toList := ⟨by decide, by decide, by decide⟩
  obtain ⟨one, writtenOne, legibleOne, denotesOne⟩ := inTag_piece ordinary looped written legible
  obtain ⟨plain, writtenPlain, legiblePlain, denotesPlain⟩ := inTag_piece ordinary writable written legible
  obtain ⟨other, writtenOther, legibleOther, denotesOther⟩ := inTag_piece each single writtenPlain legiblePlain
  constructor
  · refine compile_transfer fixed writtenOne legibleOne writtenOther legibleOther ?_
    intro nodes denotes
    obtain ⟨children, node, rfl, inside, made⟩ := (denotesOne nodes).mp denotes
    obtain ⟨spec, statics, guard, span, loop, distinct, directs, rfl⟩ := (makes_looped notEach unlooped).mp made
    have element := (@makes_plain _ _ children _ notEach unlooped).mpr ⟨statics, guard, span, distinct, directs, rfl⟩
    have denotesInner := (denotesPlain _).mpr ⟨children, _, rfl, inside, element⟩
    exact ⟨_, (denotesOther _).mpr ⟨_, _, rfl, denotesInner, makes_loop.mpr ⟨spec, span, loop, rfl⟩⟩, normal_alike⟩
  · refine compile_transfer fixed writtenOther legibleOther writtenOne legibleOne ?_
    intro nodes denotes
    obtain ⟨body, node, rfl, denotesInner, made⟩ := (denotesOther nodes).mp denotes
    obtain ⟨spec, span, loop, rfl⟩ := makes_loop.mp made
    obtain ⟨children, element, rfl, inside, made⟩ := (denotesPlain body).mp denotesInner
    obtain ⟨statics, guard, place, distinct, directs, rfl⟩ := (makes_plain notEach unlooped).mp made
    have element := (@makes_looped _ _ _ children _ notEach unlooped).mpr
      ⟨spec, statics, guard, place, loop, distinct, directs, rfl⟩
    exact ⟨_, (denotesOne _).mpr ⟨children, _, rfl, inside, element⟩, normal_alike.symm⟩

theorem compile_loop_forms_guarded :
    ∃ output,
      compile "<li each=\"item, item.id in items\" if=\"item\" class=\"row\"><b>x</b></li>" { keyToken := .fixed "k" } =
        .ok output ∧
      compile "<each expression=\"item, item.id in items\"><li if=\"item\" class=\"row\"><b>x</b></li></each>"
        { keyToken := .fixed "k" } = .ok output := by
  have ordinary : Ordinary "li".toList := ⟨by decide, by decide, by decide⟩
  have guard := directive_names "if" (by simp)
  have name : ProperName "class" := properName_of_any (by decide) (by decide)
  have writable : Writable [⟨"if", "item"⟩, ⟨"class", "row"⟩] :=
    .cons guard (by decide) (.cons name (by decide) ⟨by simp, by simp⟩)
  have content : Template.read "<b>x</b>" = .ok ⟨[.element "b" [] [.text "x"] none none ⟨0, 8, 1, 1⟩], none⟩ := by
    decide +kernel
  have read : Template.read "<li each=\"item, item.id in items\" if=\"item\" class=\"row\"><b>x</b></li>" =
      .ok ⟨[.element "li" [⟨"class", "row"⟩] [.element "b" [] [.text "x"] none none ⟨56, 64, 1, 57⟩]
        (some ⟨"item", some "item.id", "items"⟩) (some ⟨"item", ⟨34, 43, 1, 35⟩⟩) ⟨0, 69, 1, 1⟩], none⟩ := by
    decide +kernel
  have compiled := (@compile_ok _ _ { keyToken := .fixed "k" }).mpr ⟨by decide, _, read, rfl⟩
  exact ⟨_, compiled, (compile_loop_forms "li" "item, item.id in items" "<b>x</b>" "k" _ { keyToken := .fixed "k" } ordinary
    (by decide) (by decide) writable (by decide) ⟨_, content⟩ rfl _).mp compiled⟩

end Stencil.Proofs.LoopForms
