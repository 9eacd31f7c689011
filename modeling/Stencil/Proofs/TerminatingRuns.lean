import Stencil.Proofs.GrammarRuns

/-! Runs end. What a repetition repeats goes over a character each time, so a repetition that goes on does so with less
of the source; and rules call one another in an order, unless a character has been read in between. Both together make
a measure that every run inside a run is below, so from any place of any source there is a run of every rule. -/

namespace Stencil.Proofs.TerminatingRuns
open Markup GrammarRuns

/-- What the repetitions in an expression repeat. -/
def itemsOf : Expression → List Expression
  | .terminal _ | .call _ => []
  | .both first second | .either first second => itemsOf first ++ itemsOf second
  | .optional inner | .without inner | .push inner => itemsOf inner
  | .many inner => inner :: itemsOf inner

/-- Whatever is repeated goes over a character. -/
def Steady (expression : Expression) : Prop := ∀ item ∈ itemsOf expression, item.advances = true

instance (expression : Expression) : Decidable (Steady expression) :=
  inferInstanceAs (Decidable (∀ item ∈ itemsOf expression, item.advances = true))

theorem body_steady (rule : Rule) : Steady (Grammar.body rule) := by
  cases rule <;> decide

theorem run_suffix {scope : Scope} {expression : Expression} {cursor next : Cursor} {tracker after : Tracker}
    {pairs : List Pair} (run : Run scope expression cursor tracker (some (next, pairs)) after) :
    next.rest <:+ cursor.rest := by
  suffices ∀ found, some (next, pairs) = some found → found.1.rest <:+ cursor.rest from this _ rfl
  revert run
  generalize some (next, pairs) = result
  intro run
  induction run with
  | @terminal _ cursor _ terminal =>
    intro found same
    obtain ⟨next, read, rfl⟩ := Option.map_eq_some_iff.mp same
    cases terminal with
    | text | anyCase | member =>
      simp only [Terminal.read, Option.ite_none_right_eq_some, Option.some.injEq] at read
      obtain ⟨_, rfl⟩ := read
      exact List.drop_suffix _ _
    | finish =>
      simp only [Terminal.read, Option.ite_none_right_eq_some, Option.some.injEq] at read
      obtain ⟨_, rfl⟩ := read
      exact List.suffix_refl _
    | pop =>
      simp only [Terminal.read] at read
      split at read
      next => cases read
      next =>
        simp only [Option.ite_none_right_eq_some, Option.some.injEq] at read
        obtain ⟨_, rfl⟩ := read
        exact List.drop_suffix _ _
    | drop =>
      simp only [Terminal.read] at read
      split at read
      next => cases read
      next =>
        cases read
        exact List.suffix_refl _
  | bothFails =>
    intro found same
    cases same
  | both _ _ ihFirst ihSecond =>
    intro found same
    obtain ⟨inner, reached, rfl⟩ := Option.map_eq_some_iff.mp same
    exact (ihSecond _ reached).trans (ihFirst _ rfl)
  | eitherFirst _ ih => exact ih
  | eitherSecond _ _ _ ih => exact ih
  | @optional _ _ _ _ result _ _ ih =>
    rintro found ⟨⟩
    cases result with
    | none => exact List.suffix_refl _
    | some inner => exact ih inner rfl
  | manyStops =>
    rintro found ⟨⟩
    exact List.suffix_refl _
  | many _ _ ihFirst ihLater =>
    rintro found ⟨⟩
    exact (ihLater _ rfl).trans (ihFirst _ rfl)
  | without =>
    intro found same
    split at same
    · cases same
    · cases same
      exact List.suffix_refl _
  | push _ ih | call _ ih =>
    intro found same
    obtain ⟨inner, reached, rfl⟩ := Option.map_eq_some_iff.mp same
    exact ih inner reached

theorem run_consumes {scope : Scope} {expression : Expression} {cursor next : Cursor} {tracker after : Tracker}
    {pairs : List Pair} (run : Run scope expression cursor tracker (some (next, pairs)) after)
    (sure : expression.advances = true) : ∃ chars, chars ≠ [] ∧ cursor.rest = chars ++ next.rest := by
  obtain ⟨chars, same⟩ := run_suffix run
  refine ⟨chars, ?_, same.symm⟩
  rintro rfl
  have nearer := run.farther.2 sure
  rw [next.left_eq, cursor.left_eq, ← same] at nearer
  exact absurd nearer (Nat.lt_irrefl _)

/-- An expression that is to be run at a place. -/
structure Task where
  expression : Expression
  cursor : Cursor

/-- The first is run while the second one is. -/
inductive Demands : Task → Task → Prop where
  | bothFirst {one two cursor} : Demands ⟨one, cursor⟩ ⟨.both one two, cursor⟩
  | bothSecond {scope one two cursor tracker middle pairs after}
      (first : Run scope one cursor tracker (some (middle, pairs)) after) :
      Demands ⟨two, middle⟩ ⟨.both one two, cursor⟩
  | eitherFirst {one two cursor} : Demands ⟨one, cursor⟩ ⟨.either one two, cursor⟩
  | eitherSecond {one two cursor} : Demands ⟨two, cursor⟩ ⟨.either one two, cursor⟩
  | optional {one cursor} : Demands ⟨one, cursor⟩ ⟨.optional one, cursor⟩
  | item {one cursor} : Demands ⟨one, cursor⟩ ⟨.many one, cursor⟩
  | again {scope one cursor tracker middle pairs after}
      (first : Run scope one cursor tracker (some (middle, pairs)) after) :
      Demands ⟨.many one, middle⟩ ⟨.many one, cursor⟩
  | without {one cursor} : Demands ⟨one, cursor⟩ ⟨.without one, cursor⟩
  | push {one cursor} : Demands ⟨one, cursor⟩ ⟨.push one, cursor⟩
  | call {rule cursor} : Demands ⟨Grammar.body rule, cursor⟩ ⟨.call rule, cursor⟩

/-- A height for the runs of a rule. Templates and attributes call other rules before they have read anything, the other
rules do not. -/
def rankOf : Rule → Nat
  | .template | .attribute => 32
  | _ => 16

/-- How many runs can stand inside one another before a character is read. -/
def heightOf : Expression → Nat
  | .terminal _ => 0
  | .both first second => max (heightOf first) (if first.advances then 0 else heightOf second) + 1
  | .either first second => max (heightOf first) (heightOf second) + 1
  | .optional inner | .many inner | .without inner | .push inner => heightOf inner + 1
  | .call rule => rankOf rule + 1

private theorem body_height (rule : Rule) : heightOf (Grammar.body rule) ≤ rankOf rule := by
  cases rule <;> decide

/-- The source that is left counts first, the height only while nothing is read. -/
def Task.measure (task : Task) : Nat × Nat := (task.cursor.left, heightOf task.expression)

def Smaller : Task → Task → Prop := InvImage (Prod.Lex (· < ·) (· < ·)) Task.measure

private theorem smaller_wellFounded : WellFounded Smaller :=
  InvImage.wf _ (WellFounded.prod_lex Nat.lt_wfRel.wf Nat.lt_wfRel.wf)

private theorem smaller_there {inner outer : Task} (nearer : inner.cursor.left < outer.cursor.left) : Smaller inner outer :=
  .left _ _ nearer

private theorem smaller_here {one two : Expression} {cursor : Cursor} (lower : heightOf one < heightOf two) :
    Smaller ⟨one, cursor⟩ ⟨two, cursor⟩ := .right _ lower

theorem Demands.smaller {inner outer : Task} (demands : Demands inner outer) (steady : Steady outer.expression) :
    Smaller inner outer ∧ Steady inner.expression := by
  cases demands with
  | bothFirst =>
    refine ⟨smaller_here ?_, fun item member => steady item (List.mem_append_left _ member)⟩
    simp only [heightOf]
    omega
  | @bothSecond _ one two cursor _ middle _ _ first =>
    refine ⟨?_, fun item member => steady item (List.mem_append_right _ member)⟩
    obtain ⟨stays, goesOn⟩ := first.farther
    by_cases same : middle.left = cursor.left
    · have halts : one.advances = false := by
        rw [Bool.eq_false_iff]
        intro sure
        exact absurd (goesOn sure) (by omega)
      have lower : heightOf two < heightOf (.both one two) := by
        simp only [heightOf, halts, Bool.false_eq_true, if_false]
        omega
      change Prod.Lex _ _ (middle.left, heightOf two) (cursor.left, heightOf (.both one two))
      rw [same]
      exact .right _ lower
    · exact smaller_there (Nat.lt_of_le_of_ne stays same)
  | eitherFirst =>
    refine ⟨smaller_here ?_, fun item member => steady item (List.mem_append_left _ member)⟩
    simp only [heightOf]
    omega
  | eitherSecond =>
    refine ⟨smaller_here ?_, fun item member => steady item (List.mem_append_right _ member)⟩
    simp only [heightOf]
    omega
  | optional | without | push => exact ⟨smaller_here (Nat.lt_succ_self _), steady⟩
  | item => exact ⟨smaller_here (Nat.lt_succ_self _), fun item member => steady item (List.mem_cons_of_mem _ member)⟩
  | again first => exact ⟨smaller_there (first.farther.2 (steady _ List.mem_cons_self)), steady⟩
  | @call rule _ => exact ⟨smaller_here (Nat.lt_succ_of_le (body_height rule)), body_steady rule⟩

theorem demands_acc (task : Task) (steady : Steady task.expression) : Acc Demands task := by
  induction task using smaller_wellFounded.induction with
  | _ task ih =>
    refine ⟨task, ?_⟩
    intro inner demands
    obtain ⟨smaller, steadyInner⟩ := demands.smaller steady
    exact ih inner smaller steadyInner

theorem run_exists (task : Task) (steady : Steady task.expression) (scope : Scope) (tracker : Tracker) :
    ∃ result after, Run scope task.expression task.cursor tracker result after := by
  have acc := demands_acc task steady
  induction acc generalizing scope tracker with
  | intro task _ ih =>
    have inner {one : Expression} {cursor : Cursor} (demands : Demands ⟨one, cursor⟩ task) (scope : Scope)
        (tracker : Tracker) : ∃ result after, Run scope one cursor tracker result after :=
      ih ⟨one, cursor⟩ demands (demands.smaller steady).2 scope tracker
    obtain ⟨expression, cursor⟩ := task
    cases expression with
    | terminal terminal => exact ⟨_, _, .terminal terminal⟩
    | both one two =>
      obtain ⟨found, between, first⟩ := inner .bothFirst scope tracker
      cases found with
      | none => exact ⟨_, _, .bothFails first⟩
      | some found =>
        obtain ⟨result, after, second⟩ := inner (.bothSecond first) scope between
        exact ⟨_, _, .both first second⟩
    | either one two =>
      obtain ⟨found, between, first⟩ := inner .eitherFirst scope tracker
      cases found with
      | none =>
        obtain ⟨result, after, second⟩ := inner .eitherSecond scope between
        exact ⟨_, _, .eitherSecond first second⟩
      | some found => exact ⟨_, _, .eitherFirst first⟩
    | optional one =>
      obtain ⟨found, after, run⟩ := inner .optional scope tracker
      exact ⟨_, _, .optional run⟩
    | many one =>
      obtain ⟨found, between, first⟩ := inner .item scope tracker
      cases found with
      | none => exact ⟨_, _, .manyStops first⟩
      | some found =>
        obtain ⟨rest, after, later⟩ := inner (.again first) scope between
        obtain ⟨last, rfl⟩ := Option.isSome_iff_exists.mp later.many_found
        exact ⟨_, _, .many first later⟩
    | without one =>
      obtain ⟨found, after, run⟩ := inner .without { scope with mode := scope.mode.negated } tracker
      exact ⟨_, _, .without run⟩
    | push one =>
      obtain ⟨found, after, run⟩ := inner .push scope tracker
      exact ⟨_, _, .push run⟩
    | call rule =>
      obtain ⟨found, after, run⟩ := inner .call { scope with atomic := scope.atomic || Grammar.isAtomic rule } tracker
      exact ⟨_, _, .call run⟩

end Stencil.Proofs.TerminatingRuns
