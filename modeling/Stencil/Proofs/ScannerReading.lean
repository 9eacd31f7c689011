import Mathlib
import Stencil.Markup.Scanner

/-! What scanners read, without the traces. A scanner that succeeds goes over a front part of
the source, and each combinator is described by the part it goes over and by what has to stand
behind it. The rules are equivalences, so they serve for soundness and for completeness. -/

namespace Stencil.Proofs.ScannerReading
open Markup Scanner

variable {α β : Type}

def Reads (scanner : Scanner α) (cursor : Cursor) (value : α) (next : Cursor) : Prop :=
  (scanner cursor).found = some (value, next)

def Fails (scanner : Scanner α) (cursor : Cursor) : Prop := (scanner cursor).found = none

theorem cursor_ext {first second : Cursor} (rest : first.rest = second.rest)
    (opened : first.opened = second.opened) : first = second := by
  obtain ⟨firstRest, firstOpened, firstLeft, firstEq⟩ := first
  obtain ⟨secondRest, secondOpened, secondLeft, secondEq⟩ := second
  simp only at rest opened
  subst rest opened
  simp [firstEq, secondEq]

/-- The cursor at another place of the source, with the same tags open. -/
def movedTo (cursor : Cursor) (rest : List Char) : Cursor := { rest, opened := cursor.opened }

@[simp] theorem movedTo_rest (cursor : Cursor) (rest : List Char) : (movedTo cursor rest).rest = rest := rfl

@[simp] theorem movedTo_opened (cursor : Cursor) (rest : List Char) :
    (movedTo cursor rest).opened = cursor.opened := rfl

/-- Exactly these characters lie between two cursors, and the same tags are open at both. -/
structure Crosses (cursor : Cursor) (taken : List Char) (next : Cursor) : Prop where
  rest : cursor.rest = taken ++ next.rest
  opened : next.opened = cursor.opened

namespace Crosses

variable {first second third : Cursor} {taken more : List Char}

theorem refl (cursor : Cursor) : Crosses cursor [] cursor := ⟨rfl, rfl⟩

theorem trans (left : Crosses first taken second) (right : Crosses second more third) :
    Crosses first (taken ++ more) third :=
  ⟨by rw [left.rest, right.rest, List.append_assoc], right.opened.trans left.opened⟩

theorem reach (cursor : Cursor) {rest : List Char} (same : cursor.rest = taken ++ rest) :
    Crosses cursor taken (movedTo cursor rest) := ⟨same, rfl⟩

theorem eq_movedTo (crosses : Crosses first taken second) : second = movedTo first second.rest :=
  cursor_ext rfl crosses.opened

theorem nil_iff : Crosses first [] second ↔ second = first :=
  ⟨fun crosses => cursor_ext crosses.rest.symm crosses.opened, fun same => same ▸ refl first⟩

theorem append_iff :
    Crosses first (taken ++ more) third ↔ ∃ middle, Crosses first taken middle ∧ Crosses middle more third := by
  constructor
  · intro crosses
    refine ⟨movedTo first (more ++ third.rest), ⟨?_, rfl⟩, ⟨rfl, crosses.opened⟩⟩
    rw [crosses.rest, List.append_assoc, movedTo_rest]
  · rintro ⟨middle, left, right⟩
    exact left.trans right

theorem cons_iff {c : Char} :
    Crosses first (c :: more) third ↔ ∃ middle, Crosses first [c] middle ∧ Crosses middle more third :=
  @append_iff first third [c] more

theorem head {c : Char} (crosses : Crosses first (c :: more) second) : first.rest.head? = some c := by
  rw [crosses.rest]
  rfl

end Crosses

theorem reads_unique {scanner : Scanner α} {cursor next other : Cursor} {value result : α}
    (first : Reads scanner cursor value next) (second : Reads scanner cursor result other) :
    value = result ∧ next = other := by
  have same : some (value, next) = some (result, other) := first.symm.trans second
  simpa using same

theorem reads_or_fails (scanner : Scanner α) (cursor : Cursor) :
    Fails scanner cursor ∨ ∃ value next, Reads scanner cursor value next := by
  unfold Fails Reads
  cases (scanner cursor).found with
  | none => exact Or.inl rfl
  | some found => exact Or.inr ⟨found.1, found.2, rfl⟩

theorem fails_iff {scanner : Scanner α} {cursor : Cursor} :
    Fails scanner cursor ↔ ∀ value next, ¬ Reads scanner cursor value next := by
  constructor
  · intro failed value next reads
    unfold Fails at failed
    rw [reads] at failed
    cases failed
  · intro never
    rcases reads_or_fails scanner cursor with failed | ⟨value, next, reads⟩
    · exact failed
    · exact absurd reads (never value next)

theorem reads_pure {value result : α} {cursor next : Cursor} :
    Reads (pure value) cursor result next ↔ value = result ∧ next = cursor := by
  change some (value, cursor) = some (result, next) ↔ _
  simp only [Option.some.injEq, Prod.mk.injEq, eq_comm]

theorem reads_bind {scanner : Scanner α} {continued : α → Scanner β} {cursor next : Cursor}
    {value : β} :
    Reads (scanner >>= continued) cursor value next ↔
      ∃ middle stop, Reads scanner cursor middle stop ∧ Reads (continued middle) stop value next := by
  change (andThen scanner continued cursor).found = _ ↔ _
  unfold andThen Reads
  cases seen : (scanner cursor).found with
  | none => simp [seen]
  | some found =>
    obtain ⟨middle, stop⟩ := found
    simp only [seen, Option.some.injEq, Prod.mk.injEq]
    constructor
    · intro reads
      exact ⟨middle, stop, ⟨rfl, rfl⟩, reads⟩
    · rintro ⟨_, _, ⟨rfl, rfl⟩, reads⟩
      exact reads

theorem reads_orElse {first second : Scanner α} {cursor next : Cursor} {value : α} :
    Reads (orElse first second) cursor value next ↔
      Reads first cursor value next ∨ Fails first cursor ∧ Reads second cursor value next := by
  unfold orElse Reads Fails
  cases seen : (first cursor).found with
  | none => simp [seen]
  | some found => simp [seen]

theorem reads_firstOf {scanners : List (Scanner α)} {cursor next : Cursor} {value : α} :
    Reads (firstOf scanners) cursor value next ↔
      ∃ before scanner after, scanners = before ++ scanner :: after ∧
        (∀ other ∈ before, Fails other cursor) ∧ Reads scanner cursor value next := by
  induction scanners with
  | nil => simp [firstOf, Reads, fail]
  | cons first others ih =>
    simp only [firstOf, reads_orElse, ih]
    constructor
    · rintro (reads | ⟨failed, before, scanner, after, rfl, earlier, reads⟩)
      · exact ⟨[], first, others, rfl, by simp, reads⟩
      · exact ⟨first :: before, scanner, after, rfl, by simpa using ⟨failed, earlier⟩, reads⟩
    · rintro ⟨before, scanner, after, same, earlier, reads⟩
      cases before with
      | nil =>
        simp only [List.nil_append, List.cons.injEq] at same
        exact Or.inl (same.1 ▸ reads)
      | cons head tail =>
        simp only [List.cons_append, List.cons.injEq] at same
        obtain ⟨rfl, rfl⟩ := same
        exact Or.inr ⟨earlier first (by simp), tail, scanner, after, rfl,
          fun other member => earlier other (by simp [member]), reads⟩

theorem reads_maybe_some {scanner : Scanner α} {cursor next : Cursor} {value : α} :
    Reads (maybe scanner) cursor (some value) next ↔ Reads scanner cursor value next := by
  unfold maybe Reads
  cases seen : (scanner cursor).found with
  | none => simp [seen]
  | some found => simp [seen, Prod.ext_iff]

theorem reads_maybe_none {scanner : Scanner α} {cursor next : Cursor} :
    Reads (maybe scanner) cursor none next ↔ Fails scanner cursor ∧ next = cursor := by
  unfold maybe Reads Fails
  cases seen : (scanner cursor).found with
  | none => simp [seen, eq_comm]
  | some found => simp [seen]

theorem reads_named {rule : Rule} {scanner : Scanner α} {cursor next : Cursor} {value : α} :
    Reads (named rule scanner) cursor value next ↔ Reads scanner cursor value next := Iff.rfl

theorem reads_lookAhead {cursor next : Cursor} {rest : List Char} :
    Reads lookAhead cursor rest next ↔ rest = cursor.rest ∧ next = cursor := by
  change some (cursor.rest, cursor) = some (rest, next) ↔ _
  simp only [Option.some.injEq, Prod.mk.injEq, eq_comm]

theorem reads_require {condition : Bool} {cursor next : Cursor} {done : Unit} :
    Reads (require condition) cursor done next ↔ condition = true ∧ next = cursor := by
  unfold require Reads
  cases condition with
  | false => simp [fail]
  | true => simp [succeed, eq_comm]

theorem skip_crosses {cursor : Cursor} {taken rest : List Char} (same : cursor.rest = taken ++ rest) :
    cursor.skip taken.length = movedTo cursor rest := by
  apply cursor_ext
  · simp [Cursor.skip, same]
  · rfl

theorem reads_exactly {expected : List Char} {cursor next : Cursor} {done : Unit} :
    Reads (exactly expected) cursor done next ↔ Crosses cursor expected next := by
  simp only [Reads, exactly]
  constructor
  · intro found
    split at found
    next starts =>
      obtain ⟨rest, same⟩ := List.isPrefixOf_iff_prefix.mp starts
      simp only [Option.some.injEq, Prod.mk.injEq, true_and] at found
      rw [← found, skip_crosses same.symm]
      exact Crosses.reach cursor same.symm
    next => cases found
  · intro crosses
    have starts : expected.isPrefixOf cursor.rest := by
      rw [List.isPrefixOf_iff_prefix]
      exact ⟨next.rest, crosses.rest.symm⟩
    simp only [starts, ite_true, Option.some.injEq, Prod.mk.injEq, true_and]
    rw [skip_crosses crosses.rest, ← crosses.eq_movedTo]

theorem fails_exactly {expected : List Char} {cursor : Cursor} :
    Fails (exactly expected) cursor ↔ ¬ expected <+: cursor.rest := by
  simp only [fails_iff, reads_exactly]
  constructor
  · rintro never ⟨rest, same⟩
    exact never () _ (Crosses.reach cursor same.symm)
  · intro never _ next crosses
    exact never ⟨next.rest, crosses.rest.symm⟩

/-- Nowhere in the run, with this behind it, does a run end. -/
def Passes (stop : List Char → Bool) (follow : List Char) : List Char → Prop
  | [] => True
  | c :: run => stop (c :: run ++ follow) = false ∧ Passes stop follow run

/-- A run ends in front of this. -/
def Ends (stop : List Char → Bool) (follow : List Char) : Prop := follow = [] ∨ stop follow = true

theorem untilStop_splits (stop : List Char → Bool) (chars : List Char) :
    ∃ follow, chars = untilStop stop chars ++ follow ∧
      Passes stop follow (untilStop stop chars) ∧ Ends stop follow := by
  induction chars with
  | nil => exact ⟨[], rfl, trivial, Or.inl rfl⟩
  | cons c rest ih =>
    obtain ⟨follow, same, passes, ends⟩ := ih
    by_cases stops : stop (c :: rest) = true
    · exact ⟨c :: rest, by simp [untilStop, stops], by simp [untilStop, stops, Passes], Or.inr stops⟩
    · refine ⟨follow, ?_, ?_, ends⟩
      · simpa [untilStop, stops] using same
      · simp only [untilStop, stops, Bool.false_eq_true, ite_false, Passes]
        exact ⟨by rw [List.cons_append, ← same]; simpa using stops, passes⟩

theorem untilStop_append {stop : List Char → Bool} {run follow : List Char}
    (passes : Passes stop follow run) (ends : Ends stop follow) :
    untilStop stop (run ++ follow) = run := by
  induction run with
  | nil =>
    rcases ends with rfl | stops
    · rfl
    · cases follow with
      | nil => rfl
      | cons c rest => simp [untilStop, stops]
  | cons c run ih =>
    have here := passes.1
    simp only [List.cons_append] at here
    simp [untilStop, here, ih passes.2]

theorem reads_takeUntil {stop : List Char → Bool} {cursor next : Cursor} {run : List Char} :
    Reads (takeUntil stop) cursor run next ↔
      Crosses cursor run next ∧ Passes stop next.rest run ∧ Ends stop next.rest := by
  unfold takeUntil Reads
  simp only [Option.some.injEq, Prod.mk.injEq]
  constructor
  · rintro ⟨rfl, rfl⟩
    obtain ⟨follow, same, passes, ends⟩ := untilStop_splits stop cursor.rest
    rw [skip_crosses same]
    exact ⟨Crosses.reach cursor same, passes, ends⟩
  · rintro ⟨crosses, passes, ends⟩
    have same : untilStop stop cursor.rest = run := by
      rw [crosses.rest, untilStop_append passes ends]
    refine ⟨same, ?_⟩
    rw [same, skip_crosses crosses.rest, ← crosses.eq_movedTo]

theorem reads_takeSomeUntil {stop : List Char → Bool} {cursor next : Cursor} {run : List Char} :
    Reads (takeSomeUntil stop) cursor run next ↔
      Crosses cursor run next ∧ run ≠ [] ∧ Passes stop next.rest run ∧ Ends stop next.rest := by
  unfold takeSomeUntil
  simp only [reads_bind, reads_require, reads_pure, reads_takeUntil]
  constructor
  · rintro ⟨taken, stop', ⟨crosses, passes, ends⟩, _, _, ⟨some, rfl⟩, rfl, rfl⟩
    exact ⟨crosses, by simpa using some, passes, ends⟩
  · rintro ⟨crosses, some, passes, ends⟩
    exact ⟨run, next, ⟨crosses, passes, ends⟩, (), next, ⟨by simpa using some, rfl⟩, rfl, rfl⟩

/-- The next character, if there is one, is not of the class. -/
def Boundary (isMember : Char → Bool) (follow : List Char) : Prop :=
  ∀ c ∈ follow.head?, isMember c = false

@[simp] theorem boundary_nil (isMember : Char → Bool) : Boundary isMember [] := by simp [Boundary]

@[simp] theorem boundary_cons {isMember : Char → Bool} {c : Char} {rest : List Char} :
    Boundary isMember (c :: rest) ↔ isMember c = false := by simp [Boundary]

theorem passes_class {isEnd : Char → Bool} {run follow : List Char} :
    Passes (fun rest => rest.head?.any isEnd) follow run ↔ ∀ c ∈ run, isEnd c = false := by
  induction run with
  | nil => simp [Passes]
  | cons c run ih => simp [Passes, ih]

theorem passes_members {isMember : Char → Bool} {run follow : List Char} :
    Passes (fun rest => !(rest.head?.any isMember)) follow run ↔ ∀ c ∈ run, isMember c = true := by
  induction run with
  | nil => simp [Passes]
  | cons c run ih => simp [Passes, ih]

theorem ends_members {isMember : Char → Bool} {follow : List Char} :
    Ends (fun rest => !(rest.head?.any isMember)) follow ↔ Boundary isMember follow := by
  cases follow <;> simp [Ends]

theorem reads_takeWhile {isMember : Char → Bool} {cursor next : Cursor} {run : List Char} :
    Reads (takeWhile isMember) cursor run next ↔
      Crosses cursor run next ∧ (∀ c ∈ run, isMember c = true) ∧ Boundary isMember next.rest := by
  unfold takeWhile
  rw [reads_takeUntil, passes_members, ends_members]

theorem reads_takeSome {isMember : Char → Bool} {cursor next : Cursor} {run : List Char} :
    Reads (takeSome isMember) cursor run next ↔
      Crosses cursor run next ∧ run ≠ [] ∧ (∀ c ∈ run, isMember c = true) ∧
        Boundary isMember next.rest := by
  unfold takeSome
  rw [reads_takeSomeUntil, passes_members, ends_members]

theorem reads_pushTag {tag : List Char} {cursor next : Cursor} {done : Unit} :
    Reads (pushTag tag) cursor done next ↔
      next.rest = cursor.rest ∧ next.opened = tag :: cursor.opened := by
  unfold pushTag Reads
  simp only [Option.some.injEq, Prod.mk.injEq, true_and]
  constructor
  · rintro rfl
    exact ⟨rfl, rfl⟩
  · rintro ⟨rest, opened⟩
    exact cursor_ext rest.symm opened.symm

theorem reads_popTag {cursor next : Cursor} {done : Unit} :
    Reads popTag cursor done next ↔
      ∃ tag, cursor.opened = tag :: next.opened ∧ cursor.rest = tag ++ next.rest := by
  simp only [Reads, popTag]
  constructor
  · intro found
    split at found
    next => cases found
    next tag outer opened =>
      split at found
      next starts =>
        obtain ⟨rest, same⟩ := List.isPrefixOf_iff_prefix.mp starts
        simp only [Option.some.injEq, Prod.mk.injEq, true_and] at found
        subst found
        exact ⟨tag, opened, by simp [Cursor.skip, ← same]⟩
      next => cases found
  · rintro ⟨tag, opened, rest⟩
    have starts : tag.isPrefixOf cursor.rest := by
      rw [List.isPrefixOf_iff_prefix]
      exact ⟨next.rest, rest.symm⟩
    simp only [opened, starts, ite_true, Option.some.injEq, Prod.mk.injEq, true_and]
    exact cursor_ext (by simp [Cursor.skip, rest]) rfl

theorem reads_dropTag {cursor next : Cursor} {done : Unit} :
    Reads dropTag cursor done next ↔
      ∃ tag, cursor.opened = tag :: next.opened ∧ next.rest = cursor.rest := by
  simp only [Reads, dropTag]
  constructor
  · intro found
    split at found
    next => cases found
    next tag outer opened =>
      simp only [Option.some.injEq, Prod.mk.injEq, true_and] at found
      subst found
      exact ⟨tag, opened, rfl⟩
  · rintro ⟨tag, opened, rest⟩
    simp only [opened, Option.some.injEq, Prod.mk.injEq, true_and]
    exact cursor_ext rest.symm rfl

end Stencil.Proofs.ScannerReading
