import Stencil.Compile
import Stencil.Proofs.ExactSpans

/-! Faults are placed in the source. A grammar fault is at the end of the part that could be read; any other
fault is about a tag, and is at its first character, or about an attribute of a tag, and is at the first
character of the name. Reading under a name reports the same fault at the same place. -/

namespace Stencil.Proofs.FaultPlaces
open Markup Template AttributeReading LegibleMarkup MarkupReading TemplateReading ExactSpans
open Text (Place Span)

/-- The position just behind these characters. Line feeds count the line, and what follows the last of them
the column. -/
structure PositionBehind (front : List Char) (line column : Nat) : Prop where
  line : line = 1 + front.count '\n'
  column : column = 1 + (front.reverse.takeWhile (· ≠ '\n')).length

/-- The position is on a line of the source, at a character of that line or just behind the last one. -/
structure Inside (source : String) (line column : Nat) : Prop where
  line_pos : 1 ≤ line
  line_le : line ≤ 1 + source.toList.count '\n'
  column_pos : 1 ≤ column
  column_le : ∃ text, (source.toList.splitOn '\n')[line - 1]? = some text ∧ column ≤ 1 + text.length

/-- The position is that of the first character of the name of an attribute, which is written behind this in
the source. -/
structure AtName (source : String) (front name : List Char) (line column : Nat) : Prop where
  written : front ++ name <+: source.toList
  named : name ≠ []
  chars : ∀ c ∈ name, endsAttributeName c = false
  placed : PositionBehind front line column

theorem positionBehind_after (front : List Char) :
    PositionBehind front (Place.origin.after front).line (Place.origin.after front).column := by
  rw [origin_after]
  exact ⟨rfl, rfl⟩

theorem splitOn_feed (chars : List Char) : ('\n' :: chars).splitOn '\n' = [] :: chars.splitOn '\n' := by
  simp [List.splitOn_eq_splitOnP, List.splitOnP_cons_eq_if_modifyHead]

theorem splitOn_other {c : Char} (chars : List Char) (other : c ≠ '\n') :
    (c :: chars).splitOn '\n' = (chars.splitOn '\n').modifyHead (c :: ·) := by
  simp [List.splitOn_eq_splitOnP, List.splitOnP_cons_eq_if_modifyHead, other]

private theorem line_reaches (front rest : List Char) :
    ∃ text, ((front ++ rest).splitOn '\n')[front.count '\n']? = some text ∧
      (front.reverse.takeWhile (· ≠ '\n')).length ≤ text.length := by
  induction front with
  | nil =>
    obtain ⟨text, others, lines⟩ := List.exists_cons_of_ne_nil (List.splitOn_ne_nil '\n' rest)
    exact ⟨text, by simp [lines], by simp⟩
  | cons c front ih =>
    obtain ⟨text, found, reaches⟩ := ih
    rw [List.reverse_cons, List.takeWhile_append]
    by_cases feed : c = '\n'
    · subst feed
      refine ⟨text, by simpa [splitOn_feed] using found, ?_⟩
      split
      next all =>
        rw [all] at reaches
        simpa using reaches
      next => exact reaches
    · rw [List.cons_append, splitOn_other _ feed, List.count_cons_of_ne feed]
      cases count : front.count '\n' with
      | zero =>
        refine ⟨c :: text, by simp [List.getElem?_modifyHead, count ▸ found], ?_⟩
        split
        next all =>
          rw [all] at reaches
          simpa [feed] using reaches
        next => exact Nat.le_succ_of_le reaches
      | succ number =>
        refine ⟨text, by simp [count ▸ found], ?_⟩
        have feeds : '\n' ∈ front.reverse := List.mem_reverse.mpr (List.count_pos_iff.mp (by omega))
        rw [if_neg]
        · exact reaches
        · intro all
          have every := (List.takeWhile_prefix (p := (· ≠ '\n')) (l := front.reverse)).eq_of_length all
          rw [List.takeWhile_eq_self_iff] at every
          simpa using every _ feeds

theorem PositionBehind.inside {source : String} {front : List Char} {line column : Nat}
    (placed : PositionBehind front line column) (starts : front <+: source.toList) : Inside source line column := by
  obtain ⟨rest, split⟩ := starts
  obtain ⟨text, found, reaches⟩ := line_reaches front rest
  rw [split] at found
  obtain ⟨rfl, rfl⟩ := placed
  refine ⟨by omega, ?_, by omega, text, by simpa using found, by omega⟩
  rw [← split, List.count_append]
  omega

mutual

/-- The opening tags of a piece of markup, each with what stands before it. -/
def tags (before : List Char) : Piece → List (List Char × Opening)
  | .comment _ => []
  | .text _ => []
  | .script opening _ _ _ => [(before, opening)]
  | .emptyScript opening => [(before, opening)]
  | .leaf opening _ => [(before, opening)]
  | .element opening children _ =>
    (before, opening) :: tagsAll (before ++ (opening.write ++ ['>'])) children

def tagsAll (before : List Char) : List Piece → List (List Char × Opening)
  | [] => []
  | piece :: rest => tags before piece ++ tagsAll (before ++ piece.write) rest

end

/-- The attributes that a loop element can have its directive in. -/
def HoldsLoop (name : String) : Prop := name = "expression" ∨ name = "condition"

/-- What is wrong with an attribute of a tag, behind attributes with these names. The fault has no place yet. -/
inductive Offends (tag : List Char) (earlier : List String) (own : Attribute) : (Nat → Nat → Template.Fault) → Prop where
  | again (known : own.name ∈ earlier) : Offends tag earlier own (.markup (.duplicateAttribute own.name))
  | script (script : isScriptName tag = true) (other : own.name ≠ "hoisted") :
      Offends tag earlier own (.markup (.scriptAttribute own.name))
  | loop (each : tag = "each".toList) (other : ¬ HoldsLoop own.name) :
      Offends tag earlier own (.markup (.loopAttribute own.name))
  | second {name} (each : tag = "each".toList) (holds : HoldsLoop own.name) (known : name ∈ earlier)
      (holdsToo : HoldsLoop name) : Offends tag earlier own (.markup .secondExpression)
  | directive {fault} (holds : tag = "each".toList ∧ HoldsLoop own.name ∨ tag ≠ "each".toList ∧ own.name = "each")
      (unread : Directive.readLoop own.value = .error fault) : Offends tag earlier own (.directive fault own.value)
  | guard {fault} (notEach : tag ≠ "each".toList) (holds : own.name = "if")
      (unread : Directive.readCondition own.value = .error fault) :
      Offends tag earlier own (.directive fault own.value)

/-- What stands before the name of an attribute, given what stands before its tag. -/
def ahead (before tag : List Char) (earlier : List Field) (field : Field) : List Char :=
  before ++ '<' :: tag ++ earlier.flatMap Field.write ++ field.gap

/-- The fault is that of an attribute of the tag, at the first character of its name. -/
def AttributeBlamed (source : String) (before : List Char) (opening : Opening) (fault : Template.Fault)
    (line column : Nat) : Prop :=
  ∃ earlier field later cause, opening.fields = earlier ++ field :: later ∧
    Offends opening.tag (earlier.map fun other => (attributeOf other).name) (attributeOf field) cause ∧
    fault = cause line column ∧ AtName source (ahead before opening.tag earlier field) field.name line column

/-- What is wrong with a tag of the source that stands behind this, and where. What is missing from a tag is
missing where it starts. -/
inductive Blames (source : String) (before : List Char) (opening : Opening) : Template.Fault → Prop where
  | ofAttribute {fault line column} (blamed : AttributeBlamed source before opening fault line column) :
      Blames source before opening fault
  | noBody {line column} (script : isScriptName opening.tag = true) (starts : before <+: source.toList)
      (placed : PositionBehind before line column) : Blames source before opening (.markup .emptyScript line column)
  | noDirective {line column} (each : opening.tag = "each".toList) (none : opening.fields = [])
      (starts : before <+: source.toList) (placed : PositionBehind before line column) :
      Blames source before opening (.markup .missingExpression line column)

theorem bind_error {ε α β : Type} {first : Except ε α} {next : α → Except ε β} {fault : ε} :
    (first >>= next) = .error fault ↔ first = .error fault ∨ ∃ value, first = .ok value ∧ next value = .error fault := by
  cases first with
  | error _ => simp [bind, Except.bind]
  | ok value => simp [bind, Except.bind]

theorem mapError_error {ε δ α : Type} {first : Except ε α} {f : ε → δ} {fault : δ} :
    first.mapError f = .error fault ↔ ∃ cause, first = .error cause ∧ fault = f cause := by
  cases first <;> simp [Except.mapError, eq_comm]

/-- One of the attributes, as they are located, has this fault. -/
private def Faulty (tag : List Char) (fields : List Written) (fault : Template.Fault) : Prop :=
  ∃ earlier written later cause, fields = earlier ++ written :: later ∧
    Offends tag (earlier.map Written.name) ⟨written.name, written.value⟩ cause ∧
    fault = cause written.span.line written.span.column

private theorem repeated_splits {seen : List String} {fields : List Written} {written : Written}
    (found : repeated? seen fields = some written) :
    ∃ earlier later, fields = earlier ++ written :: later ∧ (written.name ∈ seen ∨ written.name ∈ earlier.map Written.name) := by
  induction fields generalizing seen with
  | nil => cases found
  | cons first rest ih =>
    simp only [repeated?] at found
    split at found
    next known =>
      cases found
      exact ⟨[], rest, rfl, Or.inl (by simpa using known)⟩
    next =>
      obtain ⟨earlier, later, rfl, known⟩ := ih found
      refine ⟨first :: earlier, later, rfl, ?_⟩
      simp only [List.mem_cons, List.map_cons] at known ⊢
      tauto

private theorem requireDistinct_faulty {tag : List Char} {fields : List Written} {fault : Template.Fault}
    (failed : requireDistinct fields = .error fault) : Faulty tag fields fault := by
  unfold requireDistinct at failed
  split at failed
  next => cases failed
  next written found =>
    cases failed
    obtain ⟨earlier, later, split, known⟩ := repeated_splits found
    exact ⟨earlier, written, later, _, split, .again (by simpa using known), rfl⟩

private theorem Faulty.cons {tag : List Char} {fields : List Written} {fault : Template.Fault} (first : Written)
    (given : Faulty tag fields fault) : Faulty tag (first :: fields) fault := by
  obtain ⟨earlier, written, later, cause, split, offends, same⟩ := given
  refine ⟨first :: earlier, written, later, cause, by simp [split], ?_, same⟩
  cases offends with
  | again known => exact .again (by simpa using Or.inr (by simpa using known))
  | script script other => exact .script script other
  | loop each other => exact .loop each other
  | second each holds known holdsToo => exact .second each holds (List.mem_cons_of_mem _ known) holdsToo
  | directive holds unread => exact .directive holds unread
  | guard notEach holds unread => exact .guard notEach holds unread

private theorem faulty_first {tag : List Char} {written : Written} {rest : List Written}
    {cause : Nat → Nat → Template.Fault} (offends : Offends tag [] ⟨written.name, written.value⟩ cause) :
    Faulty tag (written :: rest) (cause written.span.line written.span.column) :=
  ⟨[], written, rest, cause, rfl, offends, rfl⟩

private theorem scriptFlag_faulty {tag : List Char} (script : isScriptName tag = true) {fields : List Written}
    {fault : Template.Fault} (failed : scriptFlag fields = .error fault) : Faulty tag fields fault := by
  induction fields with
  | nil => cases failed
  | cons written rest ih =>
    simp only [scriptFlag] at failed
    split at failed
    next =>
      rcases bind_error.mp failed with failed | ⟨_, _, done⟩
      · exact (ih failed).cons written
      · cases done
    next other =>
      cases failed
      exact faulty_first (.script script other)

private theorem readGuard_error {written : Written} {fault : Template.Fault} (failed : readGuard written = .error fault) :
    ∃ cause, Directive.readCondition written.value = .error cause ∧
      fault = .directive cause written.value written.span.line written.span.column := by
  unfold readGuard at failed
  split at failed
  next => cases failed
  next cause read =>
    cases failed
    exact ⟨cause, read, rfl⟩

private theorem loopField_faulty {fields : List Written} {fault : Template.Fault}
    (failed : loopField none fields = .error fault) : Faulty "each".toList fields fault := by
  cases fields with
  | nil => cases failed
  | cons written rest =>
    simp only [loopField] at failed
    split at failed
    next holds =>
      cases rest with
      | nil => cases failed
      | cons second later =>
        simp only [loopField] at failed
        split at failed
        next holdsToo =>
          cases failed
          exact ⟨[written], second, later, _, rfl, .second rfl holdsToo (by simp) holds, rfl⟩
        next other =>
          cases failed
          exact (faulty_first (.loop rfl other)).cons written
    next other =>
      cases failed
      exact faulty_first (.loop rfl other)

private theorem parts_faulty {tag : List Char} (notEach : tag ≠ "each".toList) {fields : List Written}
    {fault : Template.Fault} (failed : parts fields = .error fault) : Faulty tag fields fault := by
  induction fields with
  | nil => cases failed
  | cons written rest ih =>
    have later {value : Parts → Parts} (failed : (parts rest >>= fun found => pure (value found)) = .error fault) :
        Faulty tag (written :: rest) fault := by
      rcases bind_error.mp failed with failed | ⟨_, _, done⟩
      · exact (ih failed).cons written
      · cases done
    simp only [parts] at failed
    split at failed
    next each =>
      rcases bind_error.mp failed with failed | ⟨_, _, failed⟩
      · obtain ⟨cause, unread, rfl⟩ := mapError_error.mp failed
        exact faulty_first (.directive (Or.inr ⟨notEach, each⟩) unread)
      · exact later failed
    next =>
      split at failed
      next guarded =>
        rcases bind_error.mp failed with failed | ⟨_, _, failed⟩
        · obtain ⟨cause, unread, rfl⟩ := readGuard_error failed
          exact faulty_first (.guard notEach guarded unread)
        · exact later failed
      next => exact later failed

private theorem makeNode_faulty {tag : List Char} {fields : List Written} {children : List Node} {span : Span}
    {fault : Template.Fault} (failed : makeNode tag fields children span = .error fault) :
    Faulty tag fields fault ∨
      tag = "each".toList ∧ fields = [] ∧ fault = .markup .missingExpression span.line span.column := by
  unfold makeNode at failed
  split at failed
  next each =>
    subst each
    rcases bind_error.mp failed with failed | ⟨found, read, failed⟩
    · exact Or.inl (loopField_faulty failed)
    · rcases loopField_none.mp read with ⟨none, rfl⟩ | ⟨written, rfl, holds, rfl⟩
      · cases failed
        exact Or.inr ⟨rfl, none, rfl⟩
      · rcases bind_error.mp failed with failed | ⟨_, _, done⟩
        · obtain ⟨cause, unread, rfl⟩ := mapError_error.mp failed
          exact Or.inl (faulty_first (.directive (Or.inl ⟨rfl, holds⟩) unread))
        · cases done
  next other =>
    rcases bind_error.mp failed with failed | ⟨_, _, done⟩
    · exact Or.inl (parts_faulty other failed)
    · cases done

private theorem locate_splits {place : Place} {fields : List Field} {earlier later : List Written} {written : Written}
    (split : locate place fields = earlier ++ written :: later) :
    ∃ front field rest, fields = front ++ field :: rest ∧
      earlier.map Written.name = front.map (fun other => (attributeOf other).name) ∧
      ⟨written.name, written.value⟩ = attributeOf field ∧
      written.span.line = (place.after (front.flatMap Field.write ++ field.gap)).line ∧
      written.span.column = (place.after (front.flatMap Field.write ++ field.gap)).column := by
  induction fields generalizing place earlier with
  | nil => simp [locate] at split
  | cons field fields ih =>
    cases earlier with
    | nil =>
      simp only [locate, List.nil_append, List.cons.injEq] at split
      obtain ⟨rfl, rfl⟩ := split
      exact ⟨[], field, fields, rfl, rfl, rfl, rfl, rfl⟩
    | cons first earlier =>
      simp only [locate, List.cons_append, List.cons.injEq] at split
      obtain ⟨rfl, split⟩ := split
      obtain ⟨front, own, rest, rfl, names, same, line, column⟩ := ih split
      refine ⟨field :: front, own, rest, rfl, by simp [names, attributeOf], same, ?_, ?_⟩
      · simpa [Field.write] using line
      · simpa [Field.write] using column

variable {source : String}

/-- A tag of the source with proper attributes, behind this. -/
private structure Tagged (source : String) (before : List Char) (opening : Opening) : Prop where
  starts : before ++ opening.write <+: source.toList
  fields : ∀ field ∈ opening.fields, ProperField field

private theorem Tagged.blames {before : List Char} {opening : Opening} {fault : Template.Fault}
    (tagged : Tagged source before opening)
    (faulty : Faulty opening.tag (fieldsOf (Place.origin.after before) opening) fault) :
    Blames source before opening fault := by
  obtain ⟨earlier, written, later, cause, split, offends, rfl⟩ := faulty
  obtain ⟨front, field, rest, fields, names, own, line, column⟩ := locate_splits split
  rw [names, own] at offends
  refine .ofAttribute ⟨front, field, rest, cause, fields, offends, rfl, ?_⟩
  obtain ⟨after, whole⟩ := tagged.starts
  have proper := tagged.fields field (by simp [fields])
  rw [line, column]
  simp only [← Place.after_append]
  refine ⟨⟨(field.value.map Markup.Value.write).getD [] ++ rest.flatMap Field.write ++ opening.gap ++ after, ?_⟩,
    proper.name_ne, proper.name, ?_⟩
  · rw [← whole, Opening.write, fields, ahead]
    simp [Field.write, Field.body]
  · rw [ahead, List.append_assoc]
    exact positionBehind_after _

private theorem Tagged.made {before : List Char} {opening : Opening} {children : List Node} {stop : Place}
    {fault : Template.Fault} (tagged : Tagged source before opening)
    (failed : makeNode opening.tag (fieldsOf (Place.origin.after before) opening) children
      (Span.between (Place.origin.after before) stop) = .error fault) :
    Blames source before opening fault := by
  rcases makeNode_faulty failed with faulty | ⟨each, none, rfl⟩
  · exact tagged.blames faulty
  · refine .noDirective each ?_ ((List.prefix_append _ _).trans tagged.starts) (positionBehind_after before)
    cases fields : opening.fields with
    | nil => rfl
    | cons field rest => simp [fieldsOf, locate, fields] at none

mutual

private theorem readPiece_stop (piece : Piece) {place stop : Place} {nodes : List Node}
    (read : readPiece place piece = .ok (nodes, stop)) : stop = place.after piece.write := by
  match piece with
  | .comment content =>
    cases read
    rfl
  | .text content =>
    cases read
    rfl
  | .emptyScript _ => cases read
  | .script opening body tag gap =>
    simp only [readPiece, bind_ok] at read
    obtain ⟨_, _, _, _, same⟩ := read
    cases same
    rfl
  | .leaf opening ending =>
    simp only [readPiece, bind_ok] at read
    obtain ⟨_, _, _, _, same⟩ := read
    cases same
    rfl
  | .element opening content gap =>
    simp only [readPiece, bind_ok] at read
    obtain ⟨_, _, ⟨children, behind⟩, inside, _, _, same⟩ := read
    cases same
    rw [readPieces_stop content inside]
    simp [Piece.write, ← Place.after_append]
termination_by structural piece

private theorem readPieces_stop (pieces : List Piece) {place stop : Place} {nodes : List Node}
    (read : readPieces place pieces = .ok (nodes, stop)) : stop = place.after (writeAll pieces) := by
  match pieces with
  | [] =>
    cases read
    rfl
  | piece :: rest =>
    simp only [readPieces, bind_ok] at read
    obtain ⟨⟨_, next⟩, first, ⟨_, last⟩, later, same⟩ := read
    cases same
    rw [readPieces_stop rest later, readPiece_stop piece first, writeAll, Place.after_append]
termination_by structural pieces

end

mutual

theorem readPiece_blames (piece : Piece) {before follow : List Char} {fault : Template.Fault}
    (starts : before ++ piece.write <+: source.toList) (legible : Legible piece follow)
    (failed : readPiece (Place.origin.after before) piece = .error fault) :
    ∃ tag ∈ tags before piece, Blames source tag.1 tag.2 fault := by
  match piece with
  | .comment content => cases failed
  | .text content => cases failed
  | .emptyScript opening =>
    cases failed
    have starts := (List.prefix_append before _).trans starts
    exact ⟨_, List.mem_singleton_self _, .noBody legible.1 starts (positionBehind_after before)⟩
  | .script opening body tag gap =>
    have tagged : Tagged source before opening := by
      refine ⟨List.IsPrefix.trans ⟨'>' :: body ++ closingTag tag gap, ?_⟩ starts, legible.2.1.fields⟩
      simp [Piece.write]
    refine ⟨(before, opening), List.mem_singleton_self _, ?_⟩
    simp only [readPiece] at failed
    rcases bind_error.mp failed with failed | ⟨_, _, failed⟩
    · exact tagged.blames (requireDistinct_faulty failed)
    · rcases bind_error.mp failed with failed | ⟨_, _, done⟩
      · exact tagged.blames (scriptFlag_faulty legible.1 failed)
      · cases done
  | .leaf opening ending =>
    obtain ⟨_, _, slashed, rest, proper, _, shape⟩ := legible_leaf legible
    have tagged : Tagged source before opening := by
      refine ⟨List.IsPrefix.trans ⟨tagEnd slashed ++ rest, ?_⟩ starts, proper.fields⟩
      simp [shape]
    refine ⟨(before, opening), List.mem_singleton_self _, ?_⟩
    simp only [readPiece] at failed
    rcases bind_error.mp failed with failed | ⟨_, _, failed⟩
    · exact tagged.blames (requireDistinct_faulty failed)
    · rcases bind_error.mp failed with failed | ⟨_, _, done⟩
      · exact tagged.made failed
      · cases done
  | .element opening content gap =>
    obtain ⟨_, proper, legibleInside, _⟩ := legible
    have tagged : Tagged source before opening := by
      refine ⟨List.IsPrefix.trans ⟨'>' :: writeAll content ++ closingTag opening.tag gap, ?_⟩ starts, proper.fields⟩
      simp [Piece.write]
    simp only [readPiece, ← Place.after_append] at failed
    rcases bind_error.mp failed with failed | ⟨_, _, failed⟩
    · exact ⟨_, List.mem_cons_self, tagged.blames (requireDistinct_faulty failed)⟩
    · rcases bind_error.mp failed with failed | ⟨_, _, failed⟩
      · have startsInside : before ++ (opening.write ++ ['>']) ++ writeAll content <+: source.toList := by
          refine List.IsPrefix.trans ⟨closingTag opening.tag gap, ?_⟩ starts
          simp [Piece.write]
        obtain ⟨tag, member, blames⟩ := readPieces_blames content startsInside legibleInside failed
        exact ⟨tag, List.mem_cons_of_mem _ member, blames⟩
      · rcases bind_error.mp failed with failed | ⟨_, _, done⟩
        · exact ⟨_, List.mem_cons_self, tagged.made failed⟩
        · cases done
termination_by structural piece

theorem readPieces_blames (pieces : List Piece) {before follow : List Char} {fault : Template.Fault}
    (starts : before ++ writeAll pieces <+: source.toList) (legible : LegibleAll pieces follow)
    (failed : readPieces (Place.origin.after before) pieces = .error fault) :
    ∃ tag ∈ tagsAll before pieces, Blames source tag.1 tag.2 fault := by
  match pieces with
  | [] => cases failed
  | piece :: rest =>
    simp only [readPieces] at failed
    rw [writeAll, ← List.append_assoc] at starts
    rcases bind_error.mp failed with failed | ⟨⟨_, next⟩, read, failed⟩
    · have startsFirst := (List.prefix_append (before ++ piece.write) (writeAll rest)).trans starts
      obtain ⟨tag, member, blames⟩ := readPiece_blames piece startsFirst legible.1 failed
      exact ⟨tag, List.mem_append_left _ member, blames⟩
    · rcases bind_error.mp failed with failed | ⟨_, _, done⟩
      · rw [readPiece_stop piece read, ← Place.after_append] at failed
        obtain ⟨tag, member, blames⟩ := readPieces_blames rest starts legible.2 failed
        exact ⟨tag, List.mem_append_right _ member, blames⟩
      · cases done
termination_by structural pieces

end

theorem read_fault {fault : Template.Fault} (failed : Template.read source = .error fault) :
    (∃ labels line column front, fault = .markup (.expected labels) line column ∧ front <+: source.toList ∧
        PositionBehind front line column) ∨
      ∃ pieces, source.toList = writeAll pieces ∧ LegibleAll pieces [] ∧
        ∃ tag ∈ tagsAll [] pieces, Blames source tag.1 tag.2 fault := by
  unfold Template.read at failed
  simp only at failed
  split at failed
  next =>
    cases failed
    exact Or.inl ⟨_, _, _, _, rfl, List.take_prefix _ _, positionBehind_after _⟩
  next pieces next scanned =>
    obtain ⟨written, legible⟩ := reads_template.mp ⟨next, scanned⟩
    refine Or.inr ⟨pieces, written, legible, ?_⟩
    rcases bind_error.mp failed with failed | ⟨_, _, done⟩
    · exact readPieces_blames pieces (by simp [written]) legible failed
    · cases done

/-- Faults that an attribute is to blame for: one that is repeated or not supported, or the text of a directive. -/
def AboutAttribute : Template.Fault → Prop
  | .markup (.duplicateAttribute _) _ _ => True
  | .markup (.scriptAttribute _) _ _ => True
  | .markup (.loopAttribute _) _ _ => True
  | .markup .secondExpression _ _ => True
  | .markup (.expected _) _ _ => False
  | .markup .emptyScript _ _ => False
  | .markup .missingExpression _ _ => False
  | .directive _ _ _ _ => True

inductive Kind where
  | parse
  | expression
  | options
deriving DecidableEq

def kind : Diagnostic → Kind
  | .parse _ _ _ _ _ => .parse
  | .expression _ _ _ _ => .expression
  | .options _ => .options

def message : Diagnostic → String
  | .parse message _ _ _ _ => message
  | .expression message _ _ _ => message
  | .options message => message

/-- Two results of reading fail alike, if at all. -/
def FailAlike : Except Error Template → Except Error Template → Prop
  | .ok _, .ok _ => True
  | .error first, .error second =>
    kind first.diagnostic = kind second.diagnostic ∧ message first.diagnostic = message second.diagnostic ∧
      first.diagnostic.position = second.diagnostic.position
  | .ok _, .error _ => False
  | .error _, .ok _ => False

/-- Without a name a fault is reported without its source. -/
def readPlain (source : String) : Except Error Template := (Template.read source).mapError (Error.template · none)

theorem readNamed_fails_alike (source : String) (name : Option String) :
    FailAlike (readPlain source) (Template.readNamed source name) := by
  unfold readPlain Template.readNamed
  cases Template.read source with
  | ok found => trivial
  | error fault => cases fault <;> exact ⟨rfl, rfl, rfl⟩

private theorem AttributeBlamed.position {before : List Char} {opening : Opening} {fault : Template.Fault}
    {line column : Nat} (blamed : AttributeBlamed source before opening fault line column) :
    (Error.template fault none).diagnostic.position = some (line, column) := by
  obtain ⟨_, _, _, cause, _, offends, rfl, _⟩ := blamed
  cases offends <;> rfl

theorem read_inside {fault : Template.Fault} (failed : Template.read source = .error fault) :
    ∃ line column, (Error.template fault none).diagnostic.position = some (line, column) ∧ Inside source line column := by
  rcases read_fault failed with ⟨labels, line, column, front, rfl, starts, placed⟩ | ⟨_, _, _, ⟨before, opening⟩, _, blames⟩
  · exact ⟨line, column, rfl, placed.inside starts⟩
  · cases blames with
    | @ofAttribute _ line column blamed =>
      have position := blamed.position
      obtain ⟨_, field, _, _, _, _, _, placed⟩ := blamed
      have starts := (List.prefix_append _ field.name).trans placed.written
      exact ⟨line, column, position, placed.placed.inside starts⟩
    | @noBody line column _ starts placed => exact ⟨line, column, rfl, placed.inside starts⟩
    | @noDirective line column _ _ starts placed => exact ⟨line, column, rfl, placed.inside starts⟩

/-- A template that cannot be read has its fault inside the source, and a fault of an attribute where the name of
the attribute starts. Under a name the same sources fail, with the same report. -/
theorem read_fails_inside (source : String) :
    (∀ error, readPlain source = .error error → ∃ fault line column, error = .template fault none ∧
        error.diagnostic.position = some (line, column) ∧ Inside source line column ∧
        (AboutAttribute fault → ∃ pieces before opening, source.toList = writeAll pieces ∧ LegibleAll pieces [] ∧
          (before, opening) ∈ tagsAll [] pieces ∧ AttributeBlamed source before opening fault line column)) ∧
      ∀ name, FailAlike (readPlain source) (Template.readNamed source name) := by
  refine ⟨?_, readNamed_fails_alike source⟩
  intro error failed
  obtain ⟨fault, unread, rfl⟩ := mapError_error.mp failed
  obtain ⟨line, column, position, inside⟩ := read_inside unread
  refine ⟨fault, line, column, rfl, position, inside, ?_⟩
  intro about
  rcases read_fault unread with ⟨_, _, _, _, rfl, _, _⟩ | ⟨pieces, written, legible, ⟨before, opening⟩, member, blames⟩
  · cases about
  · cases blames with
    | ofAttribute blamed =>
      cases position.symm.trans blamed.position
      exact ⟨pieces, before, opening, written, legible, member, blamed⟩
    | noBody => cases about
    | noDirective => cases about

/-- A directive inside of an element, behind a line feed and a character of two bytes. -/
theorem read_fails_inside_nested :
    let source := "<ul>\né<li id=a each='x of xs'></li></ul>"
    let error := Error.template (.directive .loopShape "x of xs" 2 11) none
    readPlain source = .error error ∧ ∃ fault line column, error = .template fault none ∧
      error.diagnostic.position = some (line, column) ∧ Inside source line column ∧
      (AboutAttribute fault → ∃ pieces before opening, source.toList = writeAll pieces ∧ LegibleAll pieces [] ∧
        (before, opening) ∈ tagsAll [] pieces ∧ AttributeBlamed source before opening fault line column) := by
  intro source error
  have failed : readPlain source = .error error := by decide +kernel
  exact ⟨failed, (read_fails_inside source).1 error failed⟩

end Stencil.Proofs.FaultPlaces
