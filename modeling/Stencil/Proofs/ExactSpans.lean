import Stencil.Proofs.TemplateInvariant

/-! Spans are exact. The span of an element or a loop covers its source from the first character of the
opening tag to the last one of the closing tag, so spans are nested as the nodes are; the span of a guard
covers the attribute that it is written as. -/

namespace Stencil.Proofs.ExactSpans
open Markup Template AttributeReading LegibleMarkup MarkupReading TemplateReading TemplateInvariant
open String (utf8Len)
open Text (Place Span)

/-- What stands in front of a span. -/
def front (source : String) (span : Span) : List Char := (String.Pos.Raw.extract source 0 ⟨span.start⟩).toList

/-- The span starts and stops between characters of the source, and this text is between its ends. Line
feeds in front of it count its line, and what follows the last of them its column. -/
structure Covers (source : String) (span : Span) (text : List Char) : Prop where
  starts : String.Pos.Raw.IsValid source ⟨span.start⟩
  stops : String.Pos.Raw.IsValid source ⟨span.stop⟩
  slice : String.Pos.Raw.extract source ⟨span.start⟩ ⟨span.stop⟩ = String.ofList text
  line : span.line = 1 + (front source span).count '\n'
  column : span.column = 1 + ((front source span).reverse.takeWhile (· ≠ '\n')).length

/-- The guard of an element with this span and text: it covers an attribute of the opening tag. -/
def GuardCovers (source tag : String) (span : Span) (text : List Char) (guard : Guard) : Prop :=
  ∃ (opening : Opening) (slashed : Bool) (rest : List Char) (earlier : List Field) (field : Field) (later : List Field),
    text = opening.write ++ tagEnd slashed ++ rest ∧ ProperOpening opening (tagEnd slashed) ∧
      opening.tag = tag.toList ∧ opening.fields = earlier ++ field :: later ∧ field.name = "if".toList ∧
      guard.span.start = span.start + utf8Len ('<' :: opening.tag ++ earlier.flatMap Field.write ++ field.gap) ∧
      Covers source guard.span field.body

def span? : Node → Option Span
  | .element _ _ _ _ _ span => some span
  | .loop _ _ span => some span
  | .text _ => none
  | .script _ _ => none

/-- Each sibling stops before the next one starts. -/
def Ordered (siblings : List Node) : Prop :=
  (siblings.filterMap span?).Pairwise fun first second => first.stop ≤ second.start

/-- The span of a tag with this guard around this content. -/
structure Exact (source tag : String) (guard : Option Guard) (children : List Node) (span : Span) : Prop where
  nonempty : span.start < span.stop
  bounded : span.stop ≤ source.utf8ByteSize
  covers : ∃ text, Covers source span text ∧ '<' :: tag.toList <+: text ∧ ['>'] <:+ text ∧
    ∀ own ∈ guard, GuardCovers source tag span text own
  guarded : ∀ own ∈ guard, span.start < own.span.start ∧ own.span.stop < span.stop
  inside : ∀ inner ∈ withinAll children, ∀ other ∈ span? inner, span.start < other.start ∧ other.stop < span.stop
  siblings : Ordered children

def ExactNode (source : String) : Node → Prop
  | .element tag _ children _ guard span => Exact source tag guard children span
  | .loop _ children span => Exact source "each" none children span
  | .text _ => True
  | .script _ _ => True

theorem origin_after (chars : List Char) :
    Place.origin.after chars =
      ⟨utf8Len chars, 1 + chars.count '\n', 1 + (chars.reverse.takeWhile (· ≠ '\n')).length⟩ := by
  induction chars using List.reverseRecOn with
  | nil => rfl
  | append_singleton chars c ih =>
    rw [Place.after_append, ih]
    by_cases feed : c = '\n'
    · simp [feed, Place.after, Place.step, String.utf8Len, Nat.add_assoc]
    · simp [feed, Place.after, Place.step, String.utf8Len, Nat.add_comm]

/-- The span of a text that stands behind another one. -/
def spanBehind (before text : List Char) : Span :=
  Span.between (Place.origin.after before) (Place.origin.after (before ++ text))

theorem spanBehind_start (before text : List Char) : (spanBehind before text).start = utf8Len before := by
  rw [spanBehind, Span.between, origin_after]

theorem spanBehind_stop (before text : List Char) : (spanBehind before text).stop = utf8Len (before ++ text) := by
  rw [spanBehind, Span.between, origin_after (before ++ text)]

private theorem valid_behind {source : String} {before after : List Char} (split : source.toList = before ++ after) :
    String.Pos.Raw.IsValid source ⟨utf8Len before⟩ := by
  refine String.Pos.Raw.isValid_iff_exists_append.mpr ⟨String.ofList before, String.ofList after, ?_, ?_⟩
  · rw [← String.ofList_append, ← split, String.ofList_toList]
  · rw [String.rawEndPos, String.utf8ByteSize_ofList]

private theorem front_behind {source : String} {before after : List Char} (split : source.toList = before ++ after)
    (text : List Char) : front source (spanBehind before text) = before := by
  have extracted := String.extract_of_valid [] before after
  simp only [List.nil_append, ← split, String.ofList_toList, String.utf8Len, Nat.zero_add] at extracted
  have taken := congrArg String.toList extracted
  rw [String.toList_ofList] at taken
  rw [front, spanBehind_start]
  exact taken

/-- A span that is counted off the source covers what it was counted over. -/
theorem covers_behind {source : String} {before text after : List Char} (split : source.toList = before ++ text ++ after) :
    Covers source (spanBehind before text) text := by
  have ahead := front_behind (split.trans (List.append_assoc before text after)) text
  constructor
  · rw [spanBehind_start]
    exact valid_behind (split.trans (List.append_assoc before text after))
  · rw [spanBehind_stop]
    exact valid_behind split
  · have extracted := String.extract_of_valid before text after
    rw [← split, String.ofList_toList] at extracted
    rw [spanBehind_start, spanBehind_stop, String.utf8Len_append]
    exact extracted
  · rw [ahead, spanBehind, Span.between, origin_after]
  · rw [ahead, spanBehind, Span.between, origin_after]

/-- Spans of these nodes are exact and lie between these offsets. -/
structure Placed (source : String) (first last : Nat) (nodes : List Node) : Prop where
  exact : ∀ node ∈ withinAll nodes, ExactNode source node
  bounds : ∀ node ∈ withinAll nodes, ∀ span ∈ span? node, first ≤ span.start ∧ span.stop ≤ last
  ordered : Ordered nodes

variable {source : String}

private theorem mem_withinAll {nodes : List Node} {node : Node} (member : node ∈ nodes) : node ∈ withinAll nodes := by
  induction nodes with
  | nil => cases member
  | cons head rest ih =>
    refine List.mem_append.mpr ?_
    rcases List.mem_cons.mp member with rfl | later
    · left
      cases node <;> simp [within]
    · exact Or.inr (ih later)

private theorem withinAll_append (first second : List Node) :
    withinAll (first ++ second) = withinAll first ++ withinAll second := by
  induction first with
  | nil => rfl
  | cons node rest ih => simp [withinAll, ih]

private theorem placed_nil (first last : Nat) : Placed source first last [] :=
  ⟨by simp [withinAll], by simp [withinAll], by simp [Ordered]⟩

private theorem placed_spanless {node : Node} (first last : Nat) (alone : within node = [node])
    (none : span? node = none) (exact : ExactNode source node) : Placed source first last [node] := by
  refine ⟨?_, ?_, by simp [Ordered, none]⟩
  · simpa [withinAll, alone] using exact
  · simp [withinAll, alone, none]

private theorem Placed.append {first middle last : Nat} {nodes others : List Node} (one : Placed source first middle nodes)
    (other : Placed source middle last others) (low : first ≤ middle) (high : middle ≤ last) :
    Placed source first last (nodes ++ others) := by
  constructor
  · intro node member
    rw [withinAll_append] at member
    rcases List.mem_append.mp member with front | behind
    · exact one.exact node front
    · exact other.exact node behind
  · intro node member span own
    rw [withinAll_append] at member
    rcases List.mem_append.mp member with front | behind
    · have bounds := one.bounds node front span own
      omega
    · have bounds := other.bounds node behind span own
      omega
  · unfold Ordered
    rw [List.filterMap_append, List.pairwise_append]
    refine ⟨one.ordered, other.ordered, ?_⟩
    intro span front next behind
    obtain ⟨node, member, own⟩ := List.mem_filterMap.mp front
    obtain ⟨later, memberLater, ownLater⟩ := List.mem_filterMap.mp behind
    have stops := (one.bounds node (mem_withinAll member) span own).2
    have starts := (other.bounds later (mem_withinAll memberLater) next ownLater).1
    omega

private theorem placed_tag {node : Node} {span : Span} {first last low high : Nat} {children : List Node}
    (shape : within node = node :: withinAll children) (own : span? node = some span) (exact : ExactNode source node)
    (starts : span.start = low) (stops : span.stop = high) (inside : Placed source first last children)
    (below : low < first) (above : last < high) : Placed source low high [node] := by
  have all : withinAll [node] = node :: withinAll children := by simp [withinAll, shape]
  refine ⟨?_, ?_, by simp [Ordered, own]⟩
  · rw [all]
    exact List.forall_mem_cons.mpr ⟨exact, inside.exact⟩
  · rw [all]
    refine List.forall_mem_cons.mpr ⟨?_, ?_⟩
    · intro other same
      cases own.symm.trans same
      omega
    · intro inner member other deeper
      have bounds := inside.bounds inner member other deeper
      omega

private theorem locate_member {place : Place} {fields : List Field} {written : Written}
    (member : written ∈ locate place fields) :
    ∃ earlier field later, fields = earlier ++ field :: later ∧ written.name = String.ofList field.name ∧
      written.span = Span.between (place.after (earlier.flatMap Field.write ++ field.gap))
        (place.after (earlier.flatMap Field.write ++ field.gap ++ field.body)) := by
  induction fields generalizing place with
  | nil => cases member
  | cons head rest ih =>
    rcases List.mem_cons.mp member with rfl | behind
    · exact ⟨[], head, rest, rfl, rfl, by simp⟩
    · obtain ⟨earlier, field, later, rfl, name, span⟩ := ih behind
      refine ⟨head :: earlier, field, later, rfl, name, ?_⟩
      simpa [Field.write] using span

/-- A guard that has the span of an attribute with its name. -/
private def GuardOf (fields : List Written) (guard : Guard) : Prop :=
  ∃ written ∈ fields, written.name = "if" ∧ guard.span = written.span

private theorem GuardOf.cons {fields : List Written} {guard : Guard} (written : Written) (given : GuardOf fields guard) :
    GuardOf (written :: fields) guard := by
  obtain ⟨other, inside, facts⟩ := given
  exact ⟨other, List.mem_cons_of_mem _ inside, facts⟩

private theorem parts_guard {fields : List Written} {found : Parts} (read : parts fields = .ok found) :
    ∀ own ∈ found.guard, GuardOf fields own := by
  induction fields generalizing found with
  | nil =>
    cases read
    simp
  | cons written rest ih =>
    simp only [parts] at read
    split at read
    next =>
      obtain ⟨_, _, later⟩ := bind_ok.mp read
      obtain ⟨others, readOthers, same⟩ := bind_ok.mp later
      cases same
      exact fun own member => (ih readOthers own member).cons written
    next =>
      split at read
      next name =>
        obtain ⟨guard, readOwn, later⟩ := bind_ok.mp read
        obtain ⟨_, _, same⟩ := bind_ok.mp later
        cases same
        intro own member
        cases member
        exact ⟨written, List.mem_cons_self, name, (readGuard_ok.mp readOwn).2⟩
      next =>
        obtain ⟨others, readOthers, same⟩ := bind_ok.mp read
        cases same
        exact fun own member => (ih readOthers own member).cons written

/-- A tag makes a loop or an element around its content, under the span that it is given. -/
private theorem makeNode_cases {tag : List Char} {fields : List Written} {children : List Node} {span : Span}
    {node : Node} (made : makeNode tag fields children span = .ok node) :
    (String.ofList tag = "each" ∧ ∃ spec, node = .loop spec children span) ∨
      ∃ attributes loop guard, node = .element (String.ofList tag) attributes children loop guard span ∧
        ∀ own ∈ guard, GuardOf fields own := by
  unfold makeNode at made
  split at made
  next each =>
    obtain ⟨field, _, made⟩ := bind_ok.mp made
    cases field with
    | none => cases made
    | some written =>
      obtain ⟨spec, _, same⟩ := bind_ok.mp made
      cases same
      exact Or.inl ⟨by rw [each, String.ofList_toList], spec, rfl⟩
  next =>
    obtain ⟨found, read, same⟩ := bind_ok.mp made
    cases same
    exact Or.inr ⟨_, _, _, rfl, parts_guard read⟩

/-- A text of the source that an opening tag starts and that ends as a tag does. -/
private structure Stands (source : String) (before text after : List Char) (opening : Opening) (slashed : Bool)
    (rest : List Char) : Prop where
  split : source.toList = before ++ text ++ after
  shape : text = opening.write ++ tagEnd slashed ++ rest
  proper : ProperOpening opening (tagEnd slashed)
  ends : rest = [] ∨ ['>'] <:+ rest

variable {before text after rest : List Char} {opening : Opening} {slashed : Bool}

private theorem utf8Len_pos {chars : List Char} (nonempty : chars ≠ []) : 0 < utf8Len chars :=
  Nat.pos_of_ne_zero fun zero => nonempty (String.utf8Len_eq_zero.mp zero)

private theorem Stands.nonempty (stands : Stands source before text after opening slashed rest) : 0 < utf8Len text :=
  utf8Len_pos (by simp [stands.shape, Opening.write])

private theorem Stands.closes (stands : Stands source before text after opening slashed rest) : ['>'] <:+ text := by
  rw [stands.shape]
  rcases stands.ends with rfl | closes
  · have ending : ['>'] <:+ tagEnd slashed := by cases slashed <;> decide
    rw [List.append_nil]
    exact ending.trans (List.suffix_append _ _)
  · exact closes.trans (List.suffix_append _ _)

private theorem guard_covers (stands : Stands source before text after opening slashed rest) {guard : Guard}
    (given : GuardOf (fieldsOf (Place.origin.after before) opening) guard) :
    GuardCovers source (String.ofList opening.tag) (spanBehind before text) text guard ∧
      utf8Len before < guard.span.start ∧ guard.span.stop < utf8Len (before ++ text) := by
  obtain ⟨written, member, named, own⟩ := given
  obtain ⟨earlier, field, later, fields, name, span⟩ := locate_member member
  generalize ahead : '<' :: opening.tag ++ earlier.flatMap Field.write ++ field.gap = front
  generalize behind : later.flatMap Field.write ++ opening.gap ++ tagEnd slashed ++ rest = back
  have parts : text = front ++ field.body ++ back := by
    rw [stands.shape, Opening.write, fields, ← ahead, ← behind]
    simp [Field.write]
  have counted : guard.span = spanBehind (before ++ front) field.body := by
    rw [own, span, spanBehind, ← ahead]
    simp only [← Place.after_append, List.append_assoc]
  have inside : source.toList = before ++ front ++ field.body ++ (back ++ after) := by
    simp only [stands.split, parts, List.append_assoc]
  have covers : Covers source guard.span field.body := by
    rw [counted]
    exact covers_behind inside
  have start : guard.span.start = utf8Len before + utf8Len front := by
    rw [counted, spanBehind_start, String.utf8Len_append]
  have stop : guard.span.stop = utf8Len before + utf8Len front + utf8Len field.body := by
    rw [counted, spanBehind_stop, String.utf8Len_append, String.utf8Len_append]
  have frontPos : 0 < utf8Len front := utf8Len_pos (by simp [← ahead])
  have backPos : 0 < utf8Len back := utf8Len_pos (by cases slashed <;> simp [← behind, tagEnd])
  refine ⟨⟨opening, slashed, rest, earlier, field, later, stands.shape, stands.proper, by simp, fields, ?_, ?_, covers⟩,
    ?_, ?_⟩
  · rw [named] at name
    simpa using (congrArg String.toList name).symm
  · rw [start, ahead, spanBehind_start]
  · omega
  · rw [stop, parts]
    simp only [String.utf8Len_append]
    omega

private theorem Stands.exact (stands : Stands source before text after opening slashed rest) {first last : Nat}
    {children : List Node} {guard : Option Guard}
    (guards : ∀ own ∈ guard, GuardOf (fieldsOf (Place.origin.after before) opening) own)
    (inside : Placed source first last children) (below : utf8Len before < first)
    (above : last < utf8Len (before ++ text)) :
    Exact source (String.ofList opening.tag) guard children (spanBehind before text) := by
  have covered := fun own member => guard_covers stands (guards own member)
  have size : source.utf8ByteSize = utf8Len (before ++ text) + utf8Len after := by
    rw [← String.utf8Len_append, ← stands.split, ← String.utf8ByteSize_ofList, String.ofList_toList]
  have nonempty := stands.nonempty
  constructor
  · rw [spanBehind_start, spanBehind_stop, String.utf8Len_append]
    omega
  · rw [spanBehind_stop]
    omega
  · refine ⟨text, covers_behind stands.split, ?_, stands.closes, fun own member => (covered own member).1⟩
    rw [stands.shape, Opening.write, String.toList_ofList]
    simp
  · rw [spanBehind_start, spanBehind_stop]
    exact fun own member => (covered own member).2
  · intro inner member other span
    have bounds := inside.bounds inner member other span
    rw [spanBehind_start, spanBehind_stop]
    omega
  · exact inside.ordered

private theorem made_placed (stands : Stands source before text after opening slashed rest) {first last : Nat}
    {children : List Node} {node : Node}
    (made : makeNode opening.tag (fieldsOf (Place.origin.after before) opening) children (spanBehind before text) = .ok node)
    (inside : Placed source first last children) (below : utf8Len before < first)
    (above : last < utf8Len (before ++ text)) : Placed source (utf8Len before) (utf8Len (before ++ text)) [node] := by
  rcases makeNode_cases made with ⟨each, spec, rfl⟩ | ⟨attributes, loop, guard, rfl, guards⟩
  · have exact : Exact source (String.ofList opening.tag) none children (spanBehind before text) :=
      stands.exact (by simp) inside below above
    rw [each] at exact
    exact placed_tag rfl rfl exact (spanBehind_start _ _) (spanBehind_stop _ _) inside below above
  · have exact := stands.exact guards inside below above
    exact placed_tag rfl rfl exact (spanBehind_start _ _) (spanBehind_stop _ _) inside below above

mutual

private theorem readPiece_placed (piece : Piece) {before after follow : List Char} {nodes : List Node} {stop : Place}
    (split : source.toList = before ++ piece.write ++ after) (legible : Legible piece follow)
    (read : readPiece (Place.origin.after before) piece = .ok (nodes, stop)) :
    stop = Place.origin.after (before ++ piece.write) ∧
      Placed source (utf8Len before) (utf8Len (before ++ piece.write)) nodes := by
  match piece with
  | .comment content =>
    cases read
    exact ⟨(Place.after_append ..).symm, placed_nil _ _⟩
  | .text content =>
    cases read
    exact ⟨(Place.after_append ..).symm, placed_spanless _ _ rfl rfl trivial⟩
  | .emptyScript _ => cases read
  | .script opening body tag gap =>
    simp only [readPiece, bind_ok] at read
    obtain ⟨_, _, hoisted, _, same⟩ := read
    cases same
    exact ⟨(Place.after_append ..).symm, placed_spanless _ _ rfl rfl trivial⟩
  | .leaf opening ending =>
    simp only [readPiece, bind_ok, ← Place.after_append] at read
    obtain ⟨_, _, node, made, same⟩ := read
    cases same
    obtain ⟨_, _, slashed, rest, proper, ends, shape⟩ := legible_leaf legible
    have stands : Stands source before (Piece.leaf opening ending).write after opening slashed rest :=
      ⟨split, shape, proper, ends⟩
    have nonempty := stands.nonempty
    refine ⟨rfl, made_placed stands made (placed_nil (utf8Len before + 1) (utf8Len before)) (by omega) ?_⟩
    rw [String.utf8Len_append]
    omega
  | .element opening content gap =>
    simp only [readPiece, bind_ok, ← Place.after_append] at read
    obtain ⟨_, _, ⟨children, behind⟩, readInside, node, made, same⟩ := read
    cases same
    obtain ⟨_, proper, legibleInside, _⟩ := legible
    have shape : (Piece.element opening content gap).write =
        opening.write ++ tagEnd false ++ (writeAll content ++ closingTag opening.tag gap) := by simp [Piece.write, tagEnd]
    have stands : Stands source before (Piece.element opening content gap).write after opening false
        (writeAll content ++ closingTag opening.tag gap) := by
      refine ⟨split, shape, proper, Or.inr ?_⟩
      exact (List.suffix_append ('<' :: '/' :: opening.tag ++ gap) ['>']).trans (List.suffix_append _ _)
    have splitInside : source.toList =
        before ++ (opening.write ++ ['>']) ++ writeAll content ++ (closingTag opening.tag gap ++ after) := by
      simp [split, shape, tagEnd]
    obtain ⟨rfl, inside⟩ := readPieces_placed content splitInside legibleInside readInside
    have whole : before ++ (opening.write ++ ['>']) ++ writeAll content ++ closingTag opening.tag gap =
        before ++ (Piece.element opening content gap).write := by simp [shape, tagEnd]
    rw [← Place.after_append, whole] at made ⊢
    have opened : 0 < utf8Len (opening.write ++ ['>']) := utf8Len_pos (by simp)
    have closed : 0 < utf8Len (closingTag opening.tag gap) := utf8Len_pos (by simp [closingTag])
    refine ⟨rfl, made_placed stands made inside ?_ ?_⟩
    · rw [String.utf8Len_append]
      omega
    · rw [← whole, String.utf8Len_append _ (closingTag _ _)]
      omega
termination_by structural piece

private theorem readPieces_placed (pieces : List Piece) {before after follow : List Char} {nodes : List Node} {stop : Place}
    (split : source.toList = before ++ writeAll pieces ++ after) (legible : LegibleAll pieces follow)
    (read : readPieces (Place.origin.after before) pieces = .ok (nodes, stop)) :
    stop = Place.origin.after (before ++ writeAll pieces) ∧
      Placed source (utf8Len before) (utf8Len (before ++ writeAll pieces)) nodes := by
  match pieces with
  | [] =>
    cases read
    exact ⟨by simp [writeAll], placed_nil _ _⟩
  | piece :: rest =>
    simp only [readPieces, bind_ok] at read
    obtain ⟨⟨front, next⟩, readFront, ⟨later, stop⟩, readLater, same⟩ := read
    cases same
    have splitFront : source.toList = before ++ piece.write ++ (writeAll rest ++ after) := by
      simpa [writeAll] using split
    have splitLater : source.toList = before ++ piece.write ++ writeAll rest ++ after := by simpa [writeAll] using split
    obtain ⟨rfl, placedFront⟩ := readPiece_placed piece splitFront legible.1 readFront
    obtain ⟨rfl, placedLater⟩ := readPieces_placed rest splitLater legible.2 readLater
    rw [writeAll]
    rw [← List.append_assoc]
    exact ⟨rfl, placedFront.append placedLater (by simp) (by simp)⟩
termination_by structural pieces

end

/-- The spans of a template that was read are exact, and nested and ordered as its nodes are. -/
theorem read_exact (source : String) (found : Template) (read : Template.read source = .ok found) :
    (∀ node ∈ withinAll found.body, ExactNode source node) ∧ Ordered found.body := by
  obtain ⟨pieces, _, written, legible, nodes⟩ := read_pieces read
  have split : source.toList = [] ++ writeAll pieces ++ [] := by simpa using written
  obtain ⟨_, placed⟩ := readPieces_placed pieces split legible nodes
  exact ⟨placed.exact, placed.ordered⟩

/-- Characters of two bytes, a line feed inside of an element, and an attribute that holds the word `if`. -/
def nestedSource : String := "é\n<each expression='x in xs'><P title=\" if='no'\" if=ok>é<br> </br>\n<b/></P></each>é<i></i >"

def nested : List Node :=
  [.text "é\n",
    .loop ⟨"x", none, "xs"⟩
      [.element "P" [⟨"title", " if='no'"⟩]
        [.text "é", .element "br" [] [] none none ⟨58, 68, 2, 55⟩, .text "\n", .element "b" [] [] none none ⟨69, 73, 3, 1⟩]
        none (some ⟨"ok", ⟨50, 55, 2, 48⟩⟩) ⟨30, 77, 2, 28⟩] ⟨3, 84, 2, 1⟩,
    .text "é", .element "i" [] [] none none ⟨86, 94, 3, 17⟩]

theorem read_exact_nested :
    Template.read nestedSource = .ok ⟨nested, none⟩ ∧
      (∀ node ∈ withinAll nested, ExactNode nestedSource node) ∧ Ordered nested := by
  have read : Template.read nestedSource = .ok ⟨nested, none⟩ := by decide +kernel
  exact ⟨read, read_exact nestedSource _ read⟩

end Stencil.Proofs.ExactSpans
