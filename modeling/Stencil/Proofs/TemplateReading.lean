import Stencil.Proofs.MarkupReading
import Stencil.Template.Reader

/-! What markup stands for. Nodes are related to the pieces they were made from without counting
places, so spans are left open; reading a template makes exactly the nodes that are related to
its source. -/

namespace Stencil.Proofs.TemplateReading
open Markup Template ScannerReading LegibleMarkup MarkupReading
open Text (Place Span)

mutual

/-- A node without the places that it was written at. -/
def spanless : Node → Node
  | .element tag attributes children loop guard _ =>
    .element tag attributes (spanlessAll children) loop (guard.map fun guard => ⟨guard.condition, .none⟩) .none
  | .text content => .text content
  | .loop spec children _ => .loop spec (spanlessAll children) .none
  | .script code hoisted => .script code hoisted

def spanlessAll : List Node → List Node
  | [] => []
  | node :: rest => spanless node :: spanlessAll rest

end

/-- The name and the value of a written attribute, which is empty where none is written. -/
def attributeOf (field : Field) : Attribute :=
  ⟨String.ofList field.name, String.ofList ((field.value.map Value.content).getD [])⟩

/-- The written attributes of an element are its own, in order, with its directives among them. -/
inductive Directs : List Attribute → List Attribute → Option LoopSpec → Option String → Prop where
  | nil : Directs [] [] none none
  | static {item written attributes loop condition}
      (notEach : item.name ≠ "each") (notIf : item.name ≠ "if")
      (rest : Directs written attributes loop condition) :
      Directs (item :: written) (item :: attributes) loop condition
  | each {text spec written attributes condition} (read : Directive.readLoop text = .ok spec)
      (rest : Directs written attributes none condition) :
      Directs (⟨"each", text⟩ :: written) attributes (some spec) condition
  | guard {text condition written attributes loop} (read : Directive.readCondition text = .ok condition)
      (rest : Directs written attributes loop none) :
      Directs (⟨"if", text⟩ :: written) attributes loop (some condition)

/-- The node of a tag with these attributes around this content. -/
inductive Makes : String → List Attribute → List Node → Node → Prop where
  | element {tag written attributes loop guard children span} (other : tag ≠ "each")
      (distinct : (written.map Attribute.name).Nodup)
      (directs : Directs written attributes loop (guard.map Guard.condition)) :
      Makes tag written children (.element tag attributes children loop guard span)
  | loop {name text spec children span} (holder : name = "expression" ∨ name = "condition")
      (read : Directive.readLoop text = .ok spec) :
      Makes "each" [⟨name, text⟩] children (.loop spec children span)

/-- The nodes that markup stands for, spans left open. -/
inductive Denotes : List Piece → List Node → Prop where
  | nil : Denotes [] []
  | comment {content pieces nodes} (rest : Denotes pieces nodes) : Denotes (.comment content :: pieces) nodes
  | text {content pieces nodes} (rest : Denotes pieces nodes) :
      Denotes (.text content :: pieces) (.text (String.ofList content) :: nodes)
  | script {opening : Opening} {body tag gap pieces nodes}
      (flags : ∀ field ∈ opening.fields, (attributeOf field).name = "hoisted")
      (distinct : (opening.fields.map fun field => (attributeOf field).name).Nodup) (rest : Denotes pieces nodes) :
      Denotes (.script opening body tag gap :: pieces)
        (.script (String.ofList (Text.trimChars body)) (!opening.fields.isEmpty) :: nodes)
  | leaf {opening : Opening} {ending pieces node nodes}
      (made : Makes (String.ofList opening.tag) (opening.fields.map attributeOf) [] node)
      (rest : Denotes pieces nodes) : Denotes (.leaf opening ending :: pieces) (node :: nodes)
  | element {opening : Opening} {content gap pieces children node nodes}
      (inside : Denotes content children)
      (made : Makes (String.ofList opening.tag) (opening.fields.map attributeOf) children node)
      (rest : Denotes pieces nodes) : Denotes (.element opening content gap :: pieces) (node :: nodes)

theorem bind_ok {ε α β : Type} {first : Except ε α} {next : α → Except ε β} {result : β} :
    (first >>= next) = .ok result ↔ ∃ value, first = .ok value ∧ next value = .ok result := by
  cases first with
  | error _ => simp [bind, Except.bind]
  | ok value => simp [bind, Except.bind]

theorem mapError_ok {ε δ α : Type} {first : Except ε α} {f : ε → δ} {result : α} :
    first.mapError f = .ok result ↔ first = .ok result := by
  cases first <;> simp [Except.mapError]

private def plain (written : Written) : Attribute := ⟨written.name, written.value⟩

private theorem locate_plain (place : Place) (fields : List Field) :
    (locate place fields).map plain = fields.map attributeOf := by
  induction fields generalizing place with
  | nil => rfl
  | cons field rest ih => simp [locate, plain, attributeOf, ih]

private theorem fieldsOf_plain (place : Place) (opening : Opening) :
    (fieldsOf place opening).map plain = opening.fields.map attributeOf := locate_plain _ _

private theorem fieldsOf_isEmpty (place : Place) (opening : Opening) :
    (fieldsOf place opening).isEmpty = opening.fields.isEmpty := by
  have mapped := congrArg List.isEmpty (fieldsOf_plain place opening)
  simpa only [List.isEmpty_map] using mapped

private theorem repeated_none {seen : List String} {fields : List Written} :
    repeated? seen fields = none ↔
      (fields.map Written.name).Nodup ∧ ∀ written ∈ fields, written.name ∉ seen := by
  induction fields generalizing seen with
  | nil => simp [repeated?]
  | cons written rest ih =>
    by_cases known : written.name ∈ seen
    · simp [repeated?, known]
    · simp only [repeated?, List.contains_eq_mem, known, decide_false, Bool.false_eq_true, ite_false, ih,
        List.map_cons, List.nodup_cons, List.mem_cons, not_or, forall_eq_or_imp]
      grind

private theorem requireDistinct_ok {fields : List Written} {done : Unit} :
    requireDistinct fields = .ok done ↔ ((fields.map plain).map Attribute.name).Nodup := by
  have names : (fields.map plain).map Attribute.name = fields.map Written.name := by simp [plain]
  rw [names]
  unfold requireDistinct
  cases found : repeated? [] fields with
  | none => simpa using (repeated_none.mp found).1
  | some written =>
    have twice : ¬ (fields.map Written.name).Nodup := by
      intro distinct
      have none := (@repeated_none [] fields).mpr ⟨distinct, by simp⟩
      rw [found] at none
      cases none
    simpa using twice

private theorem scriptFlag_ok {fields : List Written} {hoisted : Bool} :
    scriptFlag fields = .ok hoisted ↔
      (∀ item ∈ fields.map plain, item.name = "hoisted") ∧ hoisted = !fields.isEmpty := by
  induction fields generalizing hoisted with
  | nil => simp [scriptFlag, eq_comm]
  | cons written rest ih =>
    by_cases named : written.name = "hoisted"
    · simp only [scriptFlag, named, ite_true, bind_ok, ih]
      simp [plain, named, pure, Except.pure, eq_comm]
    · simp [scriptFlag, named, plain]

private theorem loopField_some {found : Written} {fields : List Written} {result : Option Written} :
    loopField (some found) fields = .ok result ↔ fields = [] ∧ result = some found := by
  cases fields with
  | nil => simp [loopField, eq_comm]
  | cons written rest =>
    by_cases named : written.name = "expression" ∨ written.name = "condition"
    · simp [loopField, named]
    · simp [loopField, named]

theorem loopField_none {fields : List Written} {result : Option Written} :
    loopField none fields = .ok result ↔
      fields = [] ∧ result = none ∨
      ∃ written, fields = [written] ∧ (written.name = "expression" ∨ written.name = "condition") ∧
        result = some written := by
  cases fields with
  | nil => simp [loopField, eq_comm]
  | cons written rest =>
    by_cases named : written.name = "expression" ∨ written.name = "condition"
    · simp only [loopField, named, if_true, loopField_some]
      grind
    · simp [loopField, named]

theorem Directs.loop_none {written attributes : List Attribute} {loop : Option LoopSpec}
    {condition : Option String} (directs : Directs written attributes loop condition)
    (absent : "each" ∉ written.map Attribute.name) : loop = none := by
  induction directs with
  | nil => rfl
  | static _ _ _ ih => exact ih fun member => absent (List.mem_cons_of_mem _ member)
  | each => simp at absent
  | guard _ _ ih => exact ih fun member => absent (List.mem_cons_of_mem _ member)

theorem Directs.condition_none {written attributes : List Attribute} {loop : Option LoopSpec}
    {condition : Option String} (directs : Directs written attributes loop condition)
    (absent : "if" ∉ written.map Attribute.name) : condition = none := by
  induction directs with
  | nil => rfl
  | static _ _ _ ih => exact ih fun member => absent (List.mem_cons_of_mem _ member)
  | each _ _ ih => exact ih fun member => absent (List.mem_cons_of_mem _ member)
  | guard => simp at absent

theorem readGuard_ok {written : Written} {guard : Guard} :
    readGuard written = .ok guard ↔
      Directive.readCondition written.value = .ok guard.condition ∧ guard.span = written.span := by
  unfold readGuard
  cases Directive.readCondition written.value with
  | error fault => simp
  | ok condition =>
    obtain ⟨other, span⟩ := guard
    simp [eq_comm]

/-- A later directive of the same name is ruled out by the names being distinct. -/
private theorem parts_directs {fields : List Written} {found : Parts} (read : parts fields = .ok found)
    (distinct : ((fields.map plain).map Attribute.name).Nodup) :
    Directs (fields.map plain) found.attributes found.loop (found.guard.map Guard.condition) := by
  induction fields generalizing found with
  | nil =>
    cases read
    exact .nil
  | cons written rest ih =>
    obtain ⟨name, value, span⟩ := written
    simp only [List.map_cons, List.nodup_cons, plain] at distinct
    obtain ⟨fresh, distinct⟩ := distinct
    simp only [parts] at read
    split at read
    next each =>
      subst each
      simp only [bind_ok, Template.readLoop, mapError_ok] at read
      obtain ⟨spec, directive, later, others, same⟩ := read
      cases same
      have directs := ih others distinct
      rw [directs.loop_none fresh] at directs
      exact .each directive directs
    next notEach =>
      split at read
      next guarded =>
        subst guarded
        simp only [bind_ok, readGuard_ok] at read
        obtain ⟨guard, ⟨directive, _⟩, later, others, same⟩ := read
        cases same
        have directs := ih others distinct
        rw [directs.condition_none fresh] at directs
        exact .guard directive directs
      next notIf =>
        simp only [bind_ok] at read
        obtain ⟨later, others, same⟩ := read
        cases same
        exact .static notEach notIf (ih others distinct)

private theorem parts_of_directs {fields : List Written} {attributes : List Attribute} {loop : Option LoopSpec}
    {condition : Option String} (directs : Directs (fields.map plain) attributes loop condition) :
    ∃ guard, parts fields = .ok ⟨attributes, loop, guard⟩ ∧ guard.map Guard.condition = condition := by
  induction fields generalizing attributes loop condition with
  | nil =>
    cases directs
    exact ⟨none, rfl, rfl⟩
  | cons written rest ih =>
    obtain ⟨name, value, span⟩ := written
    simp only [List.map_cons, plain] at directs
    cases directs with
    | static notEach notIf rest =>
      obtain ⟨guard, read, same⟩ := ih rest
      simp only at notEach notIf
      exact ⟨guard, by simp [parts, notEach, notIf, read, bind, Except.bind, pure, Except.pure], same⟩
    | each directive rest =>
      obtain ⟨guard, read, same⟩ := ih rest
      have loop := (@mapError_ok _ _ _ _ (Written.directiveFault ⟨"each", value, span⟩) _).mpr directive
      exact ⟨guard, by simp [parts, Template.readLoop, loop, read, bind, Except.bind, pure, Except.pure], same⟩
    | @guard _ condition _ _ _ directive rest =>
      obtain ⟨_, read, _⟩ := ih rest
      have guard := (@readGuard_ok ⟨"if", value, span⟩ ⟨condition, span⟩).mpr ⟨directive, rfl⟩
      exact ⟨some ⟨condition, span⟩, by simp [parts, guard, read, bind, Except.bind, pure, Except.pure], rfl⟩

private theorem makeNode_makes {tag : List Char} {fields : List Written} {children : List Node} {span : Span}
    {node : Node} (read : makeNode tag fields children span = .ok node)
    (distinct : ((fields.map plain).map Attribute.name).Nodup) :
    Makes (String.ofList tag) (fields.map plain) children node := by
  unfold makeNode at read
  split at read
  next each =>
    subst each
    simp only [bind_ok, loopField_none] at read
    obtain ⟨found, shape, read⟩ := read
    rcases shape with ⟨_, rfl⟩ | ⟨written, rfl, holder, rfl⟩
    · cases read
    · simp only [bind_ok, Template.readLoop, mapError_ok] at read
      obtain ⟨spec, directive, same⟩ := read
      cases same
      exact .loop holder directive
  next other =>
    simp only [bind_ok] at read
    obtain ⟨found, partsRead, same⟩ := read
    cases same
    refine .element ?_ distinct (parts_directs partsRead distinct)
    intro each
    exact other (by simpa using congrArg String.toList each)

/-- The content may differ in spans, since it is read anew. -/
private theorem makeNode_of_makes {tag : List Char} {fields : List Written} {children content : List Node}
    {node : Node} (span : Span) (made : Makes (String.ofList tag) (fields.map plain) children node)
    (same : spanlessAll content = spanlessAll children) :
    ∃ result, makeNode tag fields content span = .ok result ∧ spanless result = spanless node := by
  generalize name : String.ofList tag = string at made
  generalize list : fields.map plain = written at made
  cases made with
  | @element _ _ attributes loop guard _ _ other distinct directs =>
    subst list
    obtain ⟨found, read, conditions⟩ := parts_of_directs directs
    have notEach : tag ≠ "each".toList := by
      intro each
      exact other (by rw [← name, each, String.ofList_toList])
    refine ⟨.element (String.ofList tag) attributes content loop found span, ?_, ?_⟩
    · unfold makeNode
      rw [if_neg notEach, read]
      rfl
    · have guards : found.map (fun guard : Guard => (⟨guard.condition, .none⟩ : Guard)) =
          guard.map fun guard => ⟨guard.condition, .none⟩ := by
        have mapped := congrArg (Option.map fun condition => (⟨condition, .none⟩ : Guard)) conditions
        simpa [Option.map_map, Function.comp_def] using mapped
      simp [spanless, same, guards, name]
  | @loop holder text spec _ _ named directive =>
    obtain ⟨written, rfl, shape⟩ := List.map_eq_singleton_iff.mp list
    obtain ⟨field, value, place⟩ := written
    simp only [plain, Attribute.mk.injEq] at shape
    obtain ⟨rfl, rfl⟩ := shape
    have each : tag = "each".toList := by simpa using congrArg String.toList name
    have found := (@loopField_none [⟨field, value, place⟩] _).mpr (Or.inr ⟨_, rfl, named, rfl⟩)
    have loop := (@mapError_ok _ _ _ _ (Written.directiveFault ⟨field, value, place⟩) _).mpr directive
    refine ⟨.loop spec content span, ?_, by simp [spanless, same]⟩
    simp [makeNode, each, found, Template.readLoop, loop, bind, Except.bind, pure, Except.pure]

mutual

private theorem readPiece_denotes (piece : Piece) {place stop : Place} {nodes later : List Node} {rest : List Piece}
    (read : readPiece place piece = .ok (nodes, stop)) (denotes : Denotes rest later) :
    Denotes (piece :: rest) (nodes ++ later) := by
  match piece with
  | .comment content =>
    cases read
    exact .comment denotes
  | .text content =>
    cases read
    exact .text denotes
  | .emptyScript _ => cases read
  | .script opening body tag gap =>
    simp only [readPiece, bind_ok, requireDistinct_ok, scriptFlag_ok] at read
    obtain ⟨_, distinct, hoisted, ⟨flags, rfl⟩, same⟩ := read
    cases same
    rw [fieldsOf_plain] at distinct flags
    rw [fieldsOf_isEmpty]
    exact .script (by simpa using flags) (by simpa [Function.comp_def] using distinct) denotes
  | .leaf opening ending =>
    simp only [readPiece, bind_ok, requireDistinct_ok] at read
    obtain ⟨_, distinct, node, made, same⟩ := read
    cases same
    have makes := makeNode_makes made distinct
    rw [fieldsOf_plain] at makes
    exact .leaf makes denotes
  | .element opening content gap =>
    simp only [readPiece, bind_ok, requireDistinct_ok] at read
    obtain ⟨_, distinct, ⟨children, behind⟩, inside, node, made, same⟩ := read
    cases same
    have makes := makeNode_makes made distinct
    rw [fieldsOf_plain] at makes
    exact .element (readPieces_denotes content inside) makes denotes
termination_by structural piece

theorem readPieces_denotes (pieces : List Piece) {place stop : Place} {nodes : List Node}
    (read : readPieces place pieces = .ok (nodes, stop)) : Denotes pieces nodes := by
  match pieces with
  | [] =>
    cases read
    exact .nil
  | piece :: rest =>
    simp only [readPieces, bind_ok] at read
    obtain ⟨⟨first, next⟩, head, ⟨later, stop⟩, tail, same⟩ := read
    cases same
    exact readPiece_denotes piece head (readPieces_denotes rest tail)
termination_by structural pieces

end

private theorem requireDistinct_fieldsOf {opening : Opening} (place : Place)
    (distinct : ((opening.fields.map attributeOf).map Attribute.name).Nodup) :
    requireDistinct (fieldsOf place opening) = .ok () := by
  rw [requireDistinct_ok, fieldsOf_plain]
  exact distinct

/-- Reading goes through piece by piece, whatever the places are. -/
def Readable (pieces : List Piece) (nodes : List Node) : Prop :=
  ∀ place, ∃ found stop, readPieces place pieces = .ok (found, stop) ∧ spanlessAll found = spanlessAll nodes

private theorem Readable.cons {piece : Piece} {pieces : List Piece} {node : Node} {nodes : List Node}
    (head : ∀ place, ∃ result next, readPiece place piece = .ok ([result], next) ∧ spanless result = spanless node)
    (tail : Readable pieces nodes) : Readable (piece :: pieces) (node :: nodes) := by
  intro place
  obtain ⟨result, next, first, same⟩ := head place
  obtain ⟨found, stop, later, others⟩ := tail next
  refine ⟨result :: found, stop, ?_, by simp only [spanlessAll, same, others]⟩
  unfold readPieces
  exact bind_ok.mpr ⟨_, first, bind_ok.mpr ⟨_, later, rfl⟩⟩

theorem Makes.distinct {tag : String} {written : List Attribute} {children : List Node} {node : Node}
    (made : Makes tag written children node) : (written.map Attribute.name).Nodup := by
  cases made with
  | element _ distinct _ => exact distinct
  | loop => simp

theorem readable_of_denotes {pieces : List Piece} {nodes : List Node} (denotes : Denotes pieces nodes) :
    Readable pieces nodes := by
  induction denotes with
  | nil => exact fun place => ⟨[], place, rfl, rfl⟩
  | @comment content _ _ _ ih =>
    intro place
    obtain ⟨found, stop, read, same⟩ := ih (place.after (Piece.comment content).write)
    refine ⟨found, stop, ?_, same⟩
    unfold readPieces
    exact bind_ok.mpr ⟨_, rfl, bind_ok.mpr ⟨_, read, rfl⟩⟩
  | text _ ih => exact .cons (fun place => ⟨_, _, rfl, rfl⟩) ih
  | @script opening body tag gap _ _ flags distinct _ ih =>
    refine .cons (fun place => ⟨_, place.after (Piece.script opening body tag gap).write, ?_, rfl⟩) ih
    have required := requireDistinct_fieldsOf place (by simpa [Function.comp_def] using distinct)
    have flag : scriptFlag (fieldsOf place opening) = .ok (!opening.fields.isEmpty) := by
      rw [scriptFlag_ok, fieldsOf_plain, fieldsOf_isEmpty]
      exact ⟨by simpa using flags, rfl⟩
    simp only [readPiece, bind_ok]
    exact ⟨(), required, _, flag, rfl⟩
  | @leaf opening ending _ node _ made _ ih =>
    refine .cons (fun place => ?_) ih
    let stop := place.after (Piece.leaf opening ending).write
    have required := requireDistinct_fieldsOf place made.distinct
    rw [← fieldsOf_plain place] at made
    obtain ⟨result, read, same⟩ := makeNode_of_makes (Span.between place stop) made rfl
    simp only [readPiece, bind_ok]
    exact ⟨result, stop, ⟨(), required, result, read, rfl⟩, same⟩
  | @element opening content gap _ children node _ inside made _ ihInside ih =>
    refine .cons (fun place => ?_) ih
    obtain ⟨nodes, behind, readInside, sameInside⟩ := ihInside (place.after (opening.write ++ ['>']))
    let stop := behind.after (closingTag opening.tag gap)
    have required := requireDistinct_fieldsOf place made.distinct
    rw [← fieldsOf_plain place] at made
    obtain ⟨result, read, same⟩ := makeNode_of_makes (Span.between place stop) made sameInside
    simp only [readPiece, bind_ok]
    exact ⟨result, stop, ⟨(), required, _, readInside, result, read, rfl⟩, same⟩

/-- A source is accepted only as legible markup, whose pieces are read from its first place on. -/
theorem read_pieces {source : String} {found : Template} (read : Template.read source = .ok found) :
    ∃ pieces stop, source.toList = writeAll pieces ∧ LegibleAll pieces [] ∧
      readPieces Place.origin pieces = .ok (found.body, stop) := by
  unfold Template.read at read
  simp only at read
  split at read
  next => cases read
  next pieces next scanned =>
    obtain ⟨⟨body, stop⟩, nodes, same⟩ := bind_ok.mp read
    cases same
    obtain ⟨written, legible⟩ := reads_template.mp ⟨next, scanned⟩
    exact ⟨pieces, stop, written, legible, nodes⟩

/-- The template is what the markup of its source stands for. -/
theorem read_sound {source : String} {found : Template} (read : Template.read source = .ok found) :
    ∃ pieces, source.toList = writeAll pieces ∧ LegibleAll pieces [] ∧ Denotes pieces found.body := by
  obtain ⟨pieces, _, written, legible, nodes⟩ := read_pieces read
  exact ⟨pieces, written, legible, readPieces_denotes pieces nodes⟩

/-- A source has one reading as markup, so its template is made from that. -/
theorem read_denotes {source : String} {pieces : List Piece} {found : Template}
    (written : source.toList = writeAll pieces) (legible : LegibleAll pieces []) (read : Template.read source = .ok found) :
    Denotes pieces found.body := by
  obtain ⟨next, scanned⟩ := reads_template.mpr ⟨written, legible⟩
  unfold Template.read at read
  simp only at read
  rw [scanned] at read
  obtain ⟨⟨body, stop⟩, nodes, same⟩ := bind_ok.mp read
  cases same
  exact readPieces_denotes pieces nodes

theorem read_complete {source : String} {pieces : List Piece} {nodes : List Node}
    (written : source.toList = writeAll pieces) (legible : LegibleAll pieces []) (denotes : Denotes pieces nodes) :
    ∃ found, Template.read source = .ok found ∧ spanlessAll found.body = spanlessAll nodes := by
  obtain ⟨next, scanned⟩ := reads_template.mpr ⟨written, legible⟩
  obtain ⟨found, stop, read, same⟩ := readable_of_denotes denotes Place.origin
  refine ⟨⟨found, none⟩, ?_, same⟩
  unfold Template.read
  simp only
  rw [scanned]
  exact bind_ok.mpr ⟨_, read, rfl⟩

end Stencil.Proofs.TemplateReading
