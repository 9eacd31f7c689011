import Stencil.Markup.Grammar
import Stencil.Proofs.ScannerReading

/-! Attributes are read back exactly as they are written. What can be written is said without
the scanners: the characters that blanks, names and values may have, and the one case in which
the end of a bare value depends on what stands behind it. -/

namespace Stencil.Proofs.AttributeReading
open Markup Scanner ScannerReading

/-- Texts that a value of this quoting can have. -/
def Allowed : Quoting → List Char → Prop
  | .double, content => '"' ∉ content
  | .single, content => '\'' ∉ content
  | .bare, content => content ≠ [] ∧ ∀ c ∈ content, endsBareValue c = false

structure ProperValue (value : Value) : Prop where
  beforeEquals : ∀ c ∈ value.beforeEquals, isGap c = true
  afterEquals : ∀ c ∈ value.afterEquals, isGap c = true
  content : Allowed value.quoting value.content

structure ProperField (field : Field) : Prop where
  gap_ne : field.gap ≠ []
  gap : ∀ c ∈ field.gap, isGap c = true
  name_ne : field.name ≠ []
  name : ∀ c ∈ field.name, endsAttributeName c = false
  value : ∀ value ∈ field.value, ProperValue value

/-- A bare value that ends in a slash would lose it to a `>` directly behind. -/
def Apart (value : Value) (follow : List Char) : Prop :=
  value.quoting = .bare → value.content.getLast? = some '/' → follow.head? ≠ some '>'

/-- The inside of an opening tag that ends as given. -/
structure ProperOpening (opening : Opening) (ending : List Char) : Prop where
  fields : ∀ field ∈ opening.fields, ProperField field
  gap : ∀ c ∈ opening.gap, isGap c = true
  apart : ∀ field ∈ opening.fields.getLast?, ∀ value ∈ field.value, Apart value (opening.gap ++ ending)

theorem passes_startsWith {mark : Char} {run follow : List Char} :
    Passes (startsWith mark) follow run ↔ mark ∉ run := by
  induction run with
  | nil => simp [Passes]
  | cons c run ih => simp [Passes, ih, startsWith, eq_comm]

theorem passes_bare {run follow : List Char} :
    Passes stopsBareValue follow run ↔
      (∀ c ∈ run, endsBareValue c = false) ∧ (run.getLast? = some '/' → follow.head? ≠ some '>') := by
  induction run with
  | nil => simp [Passes]
  | cons c run ih =>
    cases run with
    | nil => cases follow <;> grind [Passes, stopsBareValue]
    | cons d run =>
      have greater : endsBareValue '>' = true := by decide
      grind [Passes, stopsBareValue]

/-- A quoted value is one of its marks, its content and the mark again. -/
private theorem reads_between {mark : Char} {rule : Rule} {quoting : Quoting} {cursor next : Cursor}
    {found : Quoting × List Char} :
    Reads (do
        exactly [mark]
        let content ← named rule (takeUntil (startsWith mark))
        exactly [mark]
        return (quoting, content)) cursor found next ↔
      found.1 = quoting ∧ Crosses cursor (mark :: found.2 ++ [mark]) next ∧ mark ∉ found.2 := by
  simp only [reads_bind, reads_exactly, reads_named, reads_takeUntil, reads_pure, passes_startsWith]
  constructor
  · rintro ⟨_, _, opened, content, _, ⟨taken, lacks, _⟩, _, _, closed, rfl, rfl⟩
    exact ⟨rfl, (opened.trans taken).trans closed, lacks⟩
  · obtain ⟨kind, content⟩ := found
    rintro ⟨rfl, crosses, lacks⟩
    obtain ⟨last, before, closed⟩ := Crosses.append_iff.mp crosses
    obtain ⟨first, opened, taken⟩ := Crosses.cons_iff.mp before
    have ends : Ends (startsWith mark) last.rest := by
      refine Or.inr ?_
      rw [closed.rest]
      simp [startsWith]
    exact ⟨(), first, opened, content, last, ⟨taken, lacks, ends⟩, (), next, closed, rfl, rfl⟩

theorem reads_doubleQuoted {cursor next : Cursor} {found : Quoting × List Char} :
    Reads doubleQuoted cursor found next ↔
      found.1 = .double ∧ Crosses cursor ('"' :: found.2 ++ ['"']) next ∧ '"' ∉ found.2 :=
  reads_between

theorem reads_singleQuoted {cursor next : Cursor} {found : Quoting × List Char} :
    Reads singleQuoted cursor found next ↔
      found.1 = .single ∧ Crosses cursor ('\'' :: found.2 ++ ['\'']) next ∧ '\'' ∉ found.2 :=
  reads_between

theorem reads_bare {cursor next : Cursor} {found : Quoting × List Char} :
    Reads bare cursor found next ↔
      found.1 = .bare ∧ Crosses cursor found.2 next ∧ Allowed .bare found.2 ∧
        (found.2.getLast? = some '/' → next.rest.head? ≠ some '>') ∧ Ends stopsBareValue next.rest := by
  obtain ⟨kind, content⟩ := found
  simp only [bare, reads_bind, reads_named, reads_takeSomeUntil, reads_pure, passes_bare, Allowed]
  constructor
  · rintro ⟨_, _, ⟨crosses, some, ⟨members, last⟩, ends⟩, same, rfl⟩
    simp only [Prod.mk.injEq] at same
    obtain ⟨rfl, rfl⟩ := same
    exact ⟨rfl, crosses, ⟨some, members⟩, last, ends⟩
  · rintro ⟨rfl, crosses, ⟨some, members⟩, last, ends⟩
    exact ⟨content, next, ⟨crosses, some, ⟨members, last⟩, ends⟩, rfl, rfl⟩

theorem reads_gap {cursor next : Cursor} {run : List Char} :
    Reads gap cursor run next ↔
      Crosses cursor run next ∧ (∀ c ∈ run, isGap c = true) ∧ Boundary isGap next.rest :=
  reads_takeWhile

private theorem literal_boundary {value : Value} {follow : List Char}
    (allowed : Allowed value.quoting value.content) : Boundary isGap (value.literal ++ follow) := by
  unfold Value.literal
  cases kind : value.quoting with
  | double => simp [Quoting.mark, isGap]
  | single => simp [Quoting.mark, isGap]
  | bare =>
    rw [kind] at allowed
    cases content : value.content with
    | nil => exact absurd content allowed.1
    | cons c rest =>
      have ordinary := allowed.2 c (by simp [content])
      simp only [endsBareValue, Bool.or_eq_false_iff] at ordinary
      simp [Quoting.mark, ordinary]

private theorem fails_doubleQuoted {cursor : Cursor} (other : cursor.rest.head? ≠ some '"') :
    Fails doubleQuoted cursor := by
  simp only [fails_iff, reads_doubleQuoted]
  rintro found next ⟨_, crosses, _⟩
  exact other crosses.head

private theorem fails_singleQuoted {cursor : Cursor} (other : cursor.rest.head? ≠ some '\'') :
    Fails singleQuoted cursor := by
  simp only [fails_iff, reads_singleQuoted]
  rintro found next ⟨_, crosses, _⟩
  exact other crosses.head

/-- The three ways to write a value exclude one another by their first character. -/
private theorem reads_literal {cursor next : Cursor} {value : Value} :
    Reads (firstOf [doubleQuoted, singleQuoted, bare]) cursor (value.quoting, value.content) next ↔
      Crosses cursor value.literal next ∧ Allowed value.quoting value.content ∧
        Apart value next.rest ∧ (value.quoting = .bare → Ends stopsBareValue next.rest) := by
  simp only [reads_firstOf, Value.literal, Apart]
  constructor
  · rintro ⟨before, scanner, after, same, _, reads⟩
    have member : scanner ∈ [doubleQuoted, singleQuoted, bare] := by simp [same]
    simp only [List.mem_cons, List.not_mem_nil, or_false] at member
    rcases member with rfl | rfl | rfl
    · obtain ⟨kind, crosses, lacks⟩ := reads_doubleQuoted.mp reads
      simp_all [Quoting.mark, Allowed]
    · obtain ⟨kind, crosses, lacks⟩ := reads_singleQuoted.mp reads
      simp_all [Quoting.mark, Allowed]
    · obtain ⟨kind, crosses, allowed, last, ends⟩ := reads_bare.mp reads
      simp_all [Quoting.mark, Allowed]
  · rintro ⟨crosses, allowed, apart, ends⟩
    cases kind : value.quoting with
    | double =>
      refine ⟨[], doubleQuoted, [singleQuoted, bare], rfl, by simp, reads_doubleQuoted.mpr ?_⟩
      simp_all [Quoting.mark, Allowed]
    | single =>
      simp only [kind, Quoting.mark, List.singleton_append] at crosses
      have first := crosses.head
      refine ⟨[doubleQuoted], singleQuoted, [bare], rfl, ?_, reads_singleQuoted.mpr ?_⟩
      · simpa using fails_doubleQuoted (by simp [first])
      · simp_all [Allowed]
    | bare =>
      simp only [kind, Quoting.mark, List.nil_append, List.append_nil] at crosses
      rw [kind] at allowed
      have unquoted : ∀ mark, isQuoteMark mark = true → cursor.rest.head? ≠ some mark := by
        intro mark quote same
        cases content : value.content with
        | nil => exact allowed.1 content
        | cons c rest =>
          have ordinary := allowed.2 c (by simp [content])
          rw [content] at crosses
          have equal : c = mark := by simpa [crosses.head] using same
          subst equal
          simp [endsBareValue, quote] at ordinary
      refine ⟨[doubleQuoted, singleQuoted], bare, [], rfl, ?_, reads_bare.mpr ?_⟩
      · simpa using ⟨fails_doubleQuoted (unquoted _ rfl), fails_singleQuoted (unquoted _ rfl)⟩
      · simp_all

theorem reads_value {cursor next : Cursor} {found : Value} :
    Reads value cursor found next ↔
      Crosses cursor found.write next ∧ ProperValue found ∧ Apart found next.rest ∧
        (found.quoting = .bare → Ends stopsBareValue next.rest) := by
  simp only [value, reads_bind, reads_gap, reads_exactly, reads_pure]
  constructor
  · rintro ⟨before, _, ⟨first, beforeGap, _⟩, _, _, equals, after, _, ⟨second, afterGap, _⟩,
      ⟨quoting, content⟩, _, reads, rfl, rfl⟩
    obtain ⟨third, allowed, apart, ends⟩ := (@reads_literal _ _ ⟨before, after, quoting, content⟩).mp reads
    refine ⟨?_, ⟨beforeGap, afterGap, allowed⟩, apart, ends⟩
    simpa [Value.write] using first.trans (equals.trans (second.trans third))
  · rintro ⟨crosses, proper, apart, ends⟩
    simp only [Value.write, List.append_assoc, List.cons_append] at crosses
    obtain ⟨one, first, crosses⟩ := Crosses.append_iff.mp crosses
    obtain ⟨two, equals, crosses⟩ := Crosses.cons_iff.mp crosses
    obtain ⟨three, second, third⟩ := Crosses.append_iff.mp crosses
    have atEquals : Boundary isGap one.rest := by
      rw [equals.rest]
      simp [isGap]
    have atLiteral : Boundary isGap three.rest := by
      rw [third.rest]
      exact literal_boundary proper.content
    exact ⟨_, one, ⟨first, proper.beforeEquals, atEquals⟩, (), two, equals, _, three,
      ⟨second, proper.afterEquals, atLiteral⟩, _, next,
      reads_literal.mpr ⟨third, proper.content, apart, ends⟩, rfl, rfl⟩

/-- No equals sign comes next, blanks apart. -/
def Unassigned (follow : List Char) : Prop := (follow.dropWhile isGap).head? ≠ some '='

private theorem fails_value {cursor : Cursor} (unassigned : Unassigned cursor.rest) : Fails value cursor := by
  simp only [fails_iff, value, reads_bind, reads_gap, reads_exactly]
  intro found next ⟨before, one, ⟨first, members, boundary⟩, _, two, equals, _⟩
  apply unassigned
  rw [first.rest, List.dropWhile_append_of_pos members, equals.rest]
  simp [isGap]

private theorem reads_attributeName {cursor next : Cursor} {name : List Char} :
    Reads (takeSomeUntil fun rest => rest.head?.any endsAttributeName) cursor name next ↔
      Crosses cursor name next ∧ name ≠ [] ∧ (∀ c ∈ name, endsAttributeName c = false) ∧
        Ends (fun rest => rest.head?.any endsAttributeName) next.rest := by
  rw [reads_takeSomeUntil, passes_class]

private theorem gap_endsAttributeName {c : Char} (blank : isGap c = true) : endsAttributeName c = true := by
  simp [endsAttributeName, blank]

private theorem name_boundary {name follow : List Char} (some : name ≠ [])
    (ordinary : ∀ c ∈ name, endsAttributeName c = false) : Boundary isGap (name ++ follow) := by
  cases name with
  | nil => exact absurd rfl some
  | cons c rest =>
    have first := ordinary c (by simp)
    simp only [endsAttributeName, Bool.or_eq_false_iff] at first
    simp [first]

theorem field_sound {cursor next : Cursor} {found : Field} (reads : Reads field cursor found next) :
    Crosses cursor found.write next ∧ ProperField found ∧ ∀ value ∈ found.value, Apart value next.rest := by
  simp only [field, nameAndValue, reads_bind, reads_named, reads_takeSome, reads_attributeName,
    reads_pure] at reads
  obtain ⟨gap, one, ⟨first, gapSome, gaps, _⟩, ⟨name, written⟩, two, named, rfl, rfl⟩ := reads
  obtain ⟨_, three, ⟨second, nameSome, ordinary, _⟩, value, four, optional, same, rfl⟩ := named
  simp only [Prod.mk.injEq] at same
  obtain ⟨rfl, rfl⟩ := same
  cases value with
  | none =>
    obtain ⟨_, rfl⟩ := reads_maybe_none.mp optional
    refine ⟨?_, ⟨gapSome, gaps, nameSome, ordinary, by simp⟩, by simp⟩
    simpa [Field.write, Field.body] using first.trans second
  | some value =>
    obtain ⟨third, proper, apart, _⟩ := reads_value.mp (reads_maybe_some.mp optional)
    refine ⟨?_, ⟨gapSome, gaps, nameSome, ordinary, by simpa using proper⟩, by simpa using apart⟩
    simpa [Field.write, Field.body] using first.trans (second.trans third)

/-- What stands behind an attribute: blanks, or the end of the tag. -/
inductive Behind : List Char → Prop where
  | gap {c rest} (blank : isGap c = true) : Behind (c :: rest)
  | greater {rest} : Behind ('>' :: rest)
  | slash {rest} : Behind ('/' :: '>' :: rest)

private theorem Behind.endsName {follow : List Char} (behind : Behind follow) :
    Ends (fun rest => rest.head?.any endsAttributeName) follow := by
  refine Or.inr ?_
  cases behind with
  | gap blank => simpa using gap_endsAttributeName blank
  | greater => rfl
  | slash => rfl

private theorem Behind.endsBare {follow : List Char} (behind : Behind follow) : Ends stopsBareValue follow := by
  refine Or.inr ?_
  cases behind with
  | gap blank => simp [stopsBareValue, endsBareValue, blank]
  | greater => rfl
  | slash => rfl

theorem field_complete {cursor next : Cursor} {found : Field} (crosses : Crosses cursor found.write next)
    (proper : ProperField found) (apart : ∀ value ∈ found.value, Apart value next.rest)
    (behind : Behind next.rest) (unassigned : Unassigned next.rest) : Reads field cursor found next := by
  simp only [field, nameAndValue, reads_bind, reads_named, reads_takeSome, reads_attributeName, reads_pure]
  simp only [Field.write, Field.body] at crosses
  obtain ⟨one, first, crosses⟩ := Crosses.append_iff.mp crosses
  obtain ⟨two, second, third⟩ := Crosses.append_iff.mp crosses
  have atName : Boundary isGap one.rest := by
    rw [second.rest]
    exact name_boundary proper.name_ne proper.name
  refine ⟨found.gap, one, ⟨first, proper.gap_ne, proper.gap, atName⟩, (found.name, found.value), next, ?_, rfl, rfl⟩
  cases kind : found.value with
  | none =>
    simp only [kind, Option.map_none, Option.getD_none, Crosses.nil_iff] at third
    subst third
    exact ⟨found.name, next, ⟨second, proper.name_ne, proper.name, behind.endsName⟩, none, next,
      reads_maybe_none.mpr ⟨fails_value unassigned, rfl⟩, rfl, rfl⟩
  | some value =>
    simp only [kind, Option.map_some, Option.getD_some] at third
    have endsName : Ends (fun rest => rest.head?.any endsAttributeName) two.rest := by
      refine Or.inr ?_
      rw [third.rest]
      have gaps := (proper.value value kind).beforeEquals
      cases before : value.beforeEquals with
      | nil => simp [Value.write, before, endsAttributeName]
      | cons c rest => simpa [Value.write, before] using gap_endsAttributeName (gaps c (by simp [before]))
    exact ⟨found.name, two, ⟨second, proper.name_ne, proper.name, endsName⟩, some value, next,
      reads_maybe_some.mpr (reads_value.mpr ⟨third, proper.value value kind, apart value kind, fun _ => behind.endsBare⟩),
      rfl, rfl⟩

theorem fields_sound {budget : Nat} {cursor next : Cursor} {found : List Field}
    (reads : Reads (fields budget) cursor found next) :
    Crosses cursor (found.flatMap Field.write) next ∧ (∀ field ∈ found, ProperField field) ∧
      (∀ field ∈ found.getLast?, ∀ value ∈ field.value, Apart value next.rest) ∧ found.length ≤ budget := by
  induction budget generalizing cursor found with
  | zero =>
    obtain ⟨rfl, rfl⟩ := reads_pure.mp reads
    exact ⟨Crosses.refl _, by simp, by simp, by simp⟩
  | succ budget ih =>
    simp only [fields, reads_bind] at reads
    obtain ⟨optional, one, maybeField, rest⟩ := reads
    cases optional with
    | none =>
      obtain ⟨_, rfl⟩ := reads_maybe_none.mp maybeField
      obtain ⟨rfl, rfl⟩ := reads_pure.mp rest
      exact ⟨Crosses.refl _, by simp, by simp, by simp⟩
    | some first =>
      simp only [reads_bind, reads_pure] at rest
      obtain ⟨later, _, readsLater, rfl, rfl⟩ := rest
      obtain ⟨head, proper, apart⟩ := field_sound (reads_maybe_some.mp maybeField)
      obtain ⟨tail, others, last, enough⟩ := ih readsLater
      refine ⟨head.trans tail, by simpa using ⟨proper, others⟩, ?_, by simpa using enough⟩
      cases later with
      | nil =>
        simp only [List.flatMap_nil, Crosses.nil_iff] at tail
        subst tail
        simpa using apart
      | cons second later => simpa using last

/-- What ends an opening tag. -/
inductive Closer : List Char → Prop where
  | greater {rest} : Closer ('>' :: rest)
  | slash {rest} : Closer ('/' :: '>' :: rest)

private theorem gap_behind {gap ending : List Char} (gaps : ∀ c ∈ gap, isGap c = true) (closer : Closer ending) :
    Behind (gap ++ ending) ∧ Unassigned (gap ++ ending) := by
  constructor
  · cases gap with
    | nil =>
      cases closer with
      | greater => exact .greater
      | slash => exact .slash
    | cons c rest => exact .gap (gaps c (by simp))
  · unfold Unassigned
    rw [List.dropWhile_append_of_pos gaps]
    cases closer <;> simp [isGap]

private theorem field_behind {field : Field} {follow : List Char} (proper : ProperField field) :
    Behind (field.write ++ follow) ∧ Unassigned (field.write ++ follow) ∧
      (field.write ++ follow).head? ≠ some '>' := by
  obtain ⟨c, rest, gap⟩ := List.exists_cons_of_ne_nil proper.gap_ne
  obtain ⟨d, name, named⟩ := List.exists_cons_of_ne_nil proper.name_ne
  have blank : isGap c = true := proper.gap c (by simp [gap])
  have ordinary := proper.name d (by simp [named])
  refine ⟨?_, ?_, ?_⟩
  · simpa [Field.write, gap] using Behind.gap blank
  · simp only [endsAttributeName, Bool.or_eq_false_iff] at ordinary
    simp only [Unassigned, Field.write, Field.body, List.append_assoc]
    rw [List.dropWhile_append_of_pos proper.gap, named]
    simp_all
  · intro greater
    have equal : c = '>' := by simpa [Field.write, gap] using greater
    rw [equal] at blank
    exact absurd blank (by decide)

private theorem Closer.head {ending : List Char} (closer : Closer ending) :
    ∃ c rest, ending.dropWhile isGap = c :: rest ∧ endsAttributeName c = true := by
  cases closer with
  | greater => exact ⟨'>', _, rfl, rfl⟩
  | slash => exact ⟨'/', _, rfl, rfl⟩

theorem Closer.boundary {ending : List Char} (closer : Closer ending) : Boundary isGap ending := by
  cases closer <;> simp [isGap]

/-- In front of the end of the tag there is no further attribute. -/
private theorem fails_field {cursor : Cursor} {gap ending : List Char} (same : cursor.rest = gap ++ ending)
    (gaps : ∀ c ∈ gap, isGap c = true) (closer : Closer ending) : Fails field cursor := by
  rw [fails_iff]
  intro found next reads
  obtain ⟨crosses, proper, _⟩ := field_sound reads
  obtain ⟨d, name, named⟩ := List.exists_cons_of_ne_nil proper.name_ne
  have ordinary := proper.name d (by simp [named])
  have unblank : isGap d = false := by
    simp only [endsAttributeName, Bool.or_eq_false_iff] at ordinary
    simp [ordinary]
  obtain ⟨c, rest, first, last⟩ := closer.head
  have equal : (gap ++ ending).dropWhile isGap = (found.write ++ next.rest).dropWhile isGap := by
    rw [← same, crosses.rest]
  simp only [Field.write, Field.body, List.append_assoc] at equal
  rw [List.dropWhile_append_of_pos gaps, List.dropWhile_append_of_pos proper.gap, named, first,
    List.cons_append, List.dropWhile_cons_of_neg (by simp [unblank])] at equal
  rw [(List.cons.inj equal).1, ordinary] at last
  cases last

/-- Behind the name of a tag stands what stands behind an attribute. -/
theorem opening_behind {opening : Opening} {ending : List Char} (proper : ProperOpening opening ending)
    (closer : Closer ending) : Behind (opening.fields.flatMap Field.write ++ opening.gap ++ ending) := by
  cases fields : opening.fields with
  | nil => simpa using (gap_behind proper.gap closer).1
  | cons first later =>
    rw [List.flatMap_cons, List.append_assoc, List.append_assoc]
    exact (field_behind (proper.fields first (by simp [fields]))).1

/-- Only the first character of the ending matters. -/
theorem ProperOpening.ending {opening : Opening} {first second : List Char}
    (proper : ProperOpening opening first) (same : first.head? = second.head?) : ProperOpening opening second := by
  refine ⟨proper.fields, proper.gap, ?_⟩
  intro field last value written bare slash
  have apart := proper.apart field last value written bare slash
  rw [List.head?_append] at apart ⊢
  rwa [← same]

theorem fields_complete {budget : Nat} {cursor next : Cursor} {found : List Field} {gap ending : List Char}
    (crosses : Crosses cursor (found.flatMap Field.write) next) (proper : ∀ field ∈ found, ProperField field)
    (apart : ∀ field ∈ found.getLast?, ∀ value ∈ field.value, Apart value next.rest)
    (same : next.rest = gap ++ ending) (gaps : ∀ c ∈ gap, isGap c = true) (closer : Closer ending)
    (enough : found.length ≤ budget) : Reads (fields budget) cursor found next := by
  induction found generalizing cursor budget with
  | nil =>
    simp only [List.flatMap_nil, Crosses.nil_iff] at crosses
    subst crosses
    cases budget with
    | zero => exact reads_pure.mpr ⟨rfl, rfl⟩
    | succ budget =>
      simp only [fields, reads_bind]
      exact ⟨none, next, reads_maybe_none.mpr ⟨fails_field same gaps closer, rfl⟩, reads_pure.mpr ⟨rfl, rfl⟩⟩
  | cons first later ih =>
    cases budget with
    | zero => simp at enough
    | succ budget =>
      rw [List.flatMap_cons] at crosses
      obtain ⟨middle, head, tail⟩ := Crosses.append_iff.mp crosses
      have properFirst := proper first (by simp)
      have properLater : ∀ field ∈ later, ProperField field := fun field member => proper field (by simp [member])
      have follows : Behind middle.rest ∧ Unassigned middle.rest ∧ ∀ value ∈ first.value, Apart value middle.rest := by
        cases later with
        | nil =>
          simp only [List.flatMap_nil, Crosses.nil_iff] at tail
          subst tail
          have behind := gap_behind gaps closer
          rw [← same] at behind
          exact ⟨behind.1, behind.2, by simpa using apart⟩
        | cons second later =>
          have behind := @field_behind second (later.flatMap Field.write ++ next.rest) (properLater second (by simp))
          rw [← List.append_assoc, ← List.flatMap_cons, ← tail.rest] at behind
          exact ⟨behind.1, behind.2.1, fun _ _ _ _ => behind.2.2⟩
      have apartLater : ∀ field ∈ later.getLast?, ∀ value ∈ field.value, Apart value next.rest := by
        cases later with
        | nil => simp
        | cons second later => simpa using apart
      have readsFirst := field_complete head properFirst follows.2.2 follows.1 follows.2.1
      have readsLater := ih tail properLater apartLater (by simpa using enough)
      simp only [fields, reads_bind]
      refine ⟨some first, middle, reads_maybe_some.mpr readsFirst, ?_⟩
      simp only [reads_bind, reads_pure]
      exact ⟨later, next, readsLater, rfl, rfl⟩

theorem attributes_sound {budget : Nat} {tag : List Char} {cursor next : Cursor} {opening : Opening}
    (reads : Reads (attributes budget tag) cursor opening next) :
    opening.tag = tag ∧ Crosses cursor (opening.fields.flatMap Field.write ++ opening.gap) next ∧
      ProperOpening opening next.rest ∧ opening.fields.length ≤ budget := by
  simp only [attributes, openingWith, reads_bind, reads_gap, reads_pure] at reads
  obtain ⟨fields, middle, readsFields, gap, _, ⟨last, gaps, _⟩, rfl, rfl⟩ := reads
  obtain ⟨first, proper, apart, enough⟩ := fields_sound readsFields
  rw [last.rest] at apart
  exact ⟨rfl, first.trans last, ⟨proper, gaps, apart⟩, enough⟩

theorem attributes_complete {budget : Nat} {cursor next : Cursor} {opening : Opening}
    (crosses : Crosses cursor (opening.fields.flatMap Field.write ++ opening.gap) next)
    (proper : ProperOpening opening next.rest) (closer : Closer next.rest)
    (enough : opening.fields.length ≤ budget) :
    Reads (attributes budget opening.tag) cursor opening next := by
  obtain ⟨middle, first, last⟩ := Crosses.append_iff.mp crosses
  have apart := proper.apart
  rw [← last.rest] at apart
  have readsFields := fields_complete first proper.fields apart last.rest proper.gap closer enough
  simp only [attributes, openingWith, reads_bind, reads_gap, reads_pure]
  exact ⟨opening.fields, middle, readsFields, opening.gap, next, ⟨last, proper.gap, closer.boundary⟩, rfl, rfl⟩

end Stencil.Proofs.AttributeReading
