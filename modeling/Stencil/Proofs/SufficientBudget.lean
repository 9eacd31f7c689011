import Stencil.Proofs.ScannedGrammar
import Stencil.Proofs.TerminatingRuns

/-! The budget of a template is never used up. Attributes and nodes are read within budgets that get smaller with each of
them, and less of the source is left each time. So a budget that is larger than the source is larger than what is left
wherever a loop begins again, and what would be read without a budget left is never asked for. -/

namespace Stencil.Proofs.SufficientBudget
open Markup Scanner ScannerReading MarkupReading AttributeReading GrammarRuns ScannedGrammar TerminatingRuns

/-- What is read where no budget is left. -/
structure Exhausted where
  fields : Scanner (List Field)
  forest : Scanner (List Piece)

def fieldsWithin (exhausted : Exhausted) : Nat → Scanner (List Field)
  | 0 => exhausted.fields
  | budget + 1 => do
    match ← maybe field with
    | none => return []
    | some first => return first :: (← fieldsWithin exhausted budget)

def attributesWithin (exhausted : Exhausted) (budget : Nat) : List Char → Scanner Opening :=
  openingWith (fieldsWithin exhausted budget)

def forestWithin (exhausted : Exhausted) : Nat → Scanner (List Piece)
  | 0 => exhausted.forest
  | budget + 1 => do
    match ← maybe (piece (attributesWithin exhausted budget) (forestWithin exhausted budget)) with
    | none => return []
    | some first => return first :: (← forestWithin exhausted budget)

/-- A whole source, read with some budget to start with. -/
def templateWithin (exhausted : Exhausted) (budget : Nat) : Scanner (List Piece) := named .template do
  let pieces ← forestWithin exhausted budget
  endOfInput
  return pieces

variable {α β : Type} {cursor : Cursor}

private theorem bind_alike {scanner other : Scanner α} {first second : α → Scanner β}
    (same : scanner cursor = other cursor)
    (later : ∀ value middle, Reads scanner cursor value middle → first value middle = second value middle) :
    (scanner >>= first) cursor = (other >>= second) cursor := by
  change andThen scanner first cursor = andThen other second cursor
  simp only [andThen, ← same]
  cases found : (scanner cursor).found with
  | none => rfl
  | some result =>
    obtain ⟨value, middle⟩ := result
    have reads : Reads scanner cursor value middle := found
    simp only [later value middle reads]

private theorem named_alike {rule : Rule} {first second : Scanner α} (same : first cursor = second cursor) :
    named rule first cursor = named rule second cursor := by
  unfold named
  rw [same]

private theorem maybe_alike {first second : Scanner α} (same : first cursor = second cursor) :
    maybe first cursor = maybe second cursor := by
  unfold maybe
  rw [same]

private theorem firstOf_alike {first second : List (Scanner α)}
    (each : List.Forall₂ (fun one two => one cursor = two cursor) first second) :
    firstOf first cursor = firstOf second cursor := by
  induction each with
  | nil => rfl
  | cons same _ ih =>
    simp only [firstOf, orElse]
    rw [same, ih]

private theorem Crosses.left_le {next : Cursor} {chars : List Char} (crosses : Crosses cursor chars next) :
    next.left ≤ cursor.left := by
  rw [next.left_eq, cursor.left_eq, crosses.rest, List.length_append]
  omega

private theorem exactly_less {next : Cursor} {c : Char} {done : Unit} (reads : Reads (exactly [c]) cursor done next) :
    next.left < cursor.left := by
  rw [next.left_eq, cursor.left_eq, (reads_exactly.mp reads).rest, List.length_append, List.length_singleton]
  omega

private theorem nameWhere_le {next : Cursor} {accepted : List Char → Bool} {name : List Char}
    (reads : Reads (nameWhere accepted) cursor name next) : next.left ≤ cursor.left :=
  Crosses.left_le (reads_nameWhere.mp reads).1

private theorem notScript_le {next : Cursor} {done : Unit} (reads : Reads notScript cursor done next) :
    next.left ≤ cursor.left := by
  simp only [notScript, reads_bind, reads_lookAhead, reads_require] at reads
  obtain ⟨_, _, ⟨_, rfl⟩, _, rfl⟩ := reads
  exact Nat.le_refl _

private theorem pushTag_le {next : Cursor} {tag : List Char} {done : Unit} (reads : Reads (pushTag tag) cursor done next) :
    next.left ≤ cursor.left := by
  rw [next.left_eq, cursor.left_eq, (reads_pushTag.mp reads).1]

section

variable {budget : Nat} {tagged : List Char → Scanner Opening} {children other : Scanner (List Piece)}
  (alike : ∀ tag middle, middle.left < cursor.left → attributes budget tag middle = tagged tag middle)
include alike

/-- Whatever comes behind the tag of a script. -/
private theorem scriptTag_alike (later : Opening → Scanner β) :
    (do exactly ['<']; let opening ← attributes budget (← scriptTag); later opening : Scanner β) cursor =
      (do exactly ['<']; let opening ← tagged (← scriptTag); later opening : Scanner β) cursor := by
  apply bind_alike rfl
  intro _ inside less
  apply bind_alike rfl
  intro tag behind name
  have nearer : behind.left < cursor.left := (nameWhere_le name).trans_lt (exactly_less less)
  apply bind_alike (alike tag behind nearer)
  intro _ _ _
  rfl

private theorem emptyScript_alike : emptyScript (attributes budget) cursor = emptyScript tagged cursor :=
  named_alike (scriptTag_alike alike _)

private theorem script_alike : script (attributes budget) cursor = script tagged cursor :=
  named_alike (scriptTag_alike alike _)

private theorem voidElement_alike : voidElement (attributes budget) cursor = voidElement tagged cursor := by
  apply named_alike
  apply bind_alike rfl
  intro _ inside less
  apply bind_alike rfl
  intro tag behind name
  have nearer : behind.left < cursor.left := (nameWhere_le (reads_named.mp name)).trans_lt (exactly_less less)
  apply bind_alike rfl
  intro _ waiting pushed
  apply bind_alike (alike tag waiting ((pushTag_le pushed).trans_lt nearer))
  intro _ _ _
  rfl

private theorem selfClosing_alike : selfClosing (attributes budget) cursor = selfClosing tagged cursor := by
  apply named_alike
  apply bind_alike rfl
  intro _ inside less
  apply bind_alike rfl
  intro _ start noScript
  have started : start.left < cursor.left := (notScript_le noScript).trans_lt (exactly_less less)
  apply bind_alike rfl
  intro tag behind name
  apply bind_alike (alike tag behind ((nameWhere_le (reads_named.mp name)).trans_lt started))
  intro _ _ _
  rfl

private theorem element_alike (content : ∀ middle, middle.left < cursor.left → children middle = other middle) :
    element (attributes budget) children cursor = element tagged other cursor := by
  apply named_alike
  apply bind_alike rfl
  intro _ inside less
  apply bind_alike rfl
  intro _ start noScript
  have started : start.left < cursor.left := (notScript_le noScript).trans_lt (exactly_less less)
  apply bind_alike rfl
  intro tag behind name
  have nearer : behind.left < cursor.left := (nameWhere_le (reads_named.mp name)).trans_lt started
  apply bind_alike rfl
  intro _ waiting pushed
  have waited : waiting.left < cursor.left := (pushTag_le pushed).trans_lt nearer
  apply bind_alike (alike tag waiting waited)
  intro _ after read
  have followed : after.left ≤ waiting.left := Crosses.left_le (attributes_sound read).2.1
  apply bind_alike rfl
  intro _ within greater
  apply bind_alike (content within ((exactly_less greater).trans_le followed |>.trans waited))
  intro _ _ _
  rfl

private theorem piece_alike (content : ∀ middle, middle.left < cursor.left → children middle = other middle) :
    piece (attributes budget) children cursor = piece tagged other cursor := by
  apply firstOf_alike
  refine .cons rfl (.cons ?_ (.cons ?_ (.cons ?_ (.cons ?_ (.cons ?_ (.cons rfl .nil))))))
  · exact emptyScript_alike alike
  · exact script_alike alike
  · exact voidElement_alike alike
  · exact selfClosing_alike alike
  · exact element_alike alike content

end

variable {exhausted : Exhausted} {budget other : Nat}

private theorem fields_afforded (enough : cursor.left < budget) (more : cursor.left < other) :
    fields budget cursor = fieldsWithin exhausted other cursor := by
  induction budget generalizing cursor other with
  | zero => omega
  | succ budget ih =>
    obtain ⟨other, rfl⟩ : ∃ less, other = less + 1 := ⟨other - 1, by omega⟩
    apply bind_alike rfl
    intro found middle reads
    cases found with
    | none => rfl
    | some first =>
      have nearer := ((field_follows cursor).farther (reads_maybe_some.mp reads)).2 rfl
      apply bind_alike (ih (by omega) (by omega))
      intro _ _ _
      rfl

private theorem attributes_afforded (tag : List Char) (enough : cursor.left < budget) (more : cursor.left < other) :
    attributes budget tag cursor = attributesWithin exhausted other tag cursor := by
  apply bind_alike (fields_afforded enough more)
  intro _ _ _
  rfl

/-- Nodes are read alike with all budgets that are larger than what is left of the source. -/
theorem forest_afforded (enough : cursor.left < budget) (more : cursor.left < other) :
    forest budget cursor = forestWithin exhausted other cursor := by
  induction budget generalizing cursor other with
  | zero => omega
  | succ budget ih =>
    obtain ⟨other, rfl⟩ : ∃ less, other = less + 1 := ⟨other - 1, by omega⟩
    have piece : piece (attributes budget) (forest budget) cursor =
        piece (attributesWithin exhausted other) (forestWithin exhausted other) cursor := by
      apply piece_alike
      · exact fun tag _ nearer => attributes_afforded tag (by omega) (by omega)
      · exact fun _ nearer => ih (by omega) (by omega)
    apply bind_alike (maybe_alike piece)
    intro found middle reads
    cases found with
    | none => rfl
    | some first =>
      have follows : Follows (Markup.piece (attributes budget) (forest budget)) Grammar.node cursor :=
        piece_follows (by omega) fun _ nearer => forest_follows (by omega)
      have nearer := (follows.farther (reads_maybe_some.mp reads)).2 rfl
      apply bind_alike (ih (by omega) (by omega))
      intro _ _ _
      rfl

theorem template_afforded (enough : cursor.left < budget) :
    template cursor = templateWithin exhausted budget cursor := by
  apply named_alike
  have start : cursor.left < cursor.rest.length + 1 := by
    rw [cursor.left_eq]
    exact Nat.lt_succ_self _
  refine (SilentScanners.bind_silent rfl).trans ?_
  apply bind_alike (forest_afforded start enough)
  intro _ _ _
  rfl

/-- How a template is recognized: its scanner runs the rule, all repetitions go on, and runs come to an end. -/
structure Progresses (source : String) (start : Cursor) : Prop where
  follows : Follows template (.call .template) start
  /-- Whatever a repetition repeats goes over a character that is there. -/
  consumes : ∀ rule, ∀ item ∈ itemsOf (Grammar.body rule), ∀ scope cursor tracker next pairs after,
    Run scope item cursor tracker (some (next, pairs)) after → ∃ chars, chars ≠ [] ∧ cursor.rest = chars ++ next.rest
  /-- Runs inside runs come to an end, whatever the source, and there is one result. -/
  ends : ∀ rule cursor, Acc Demands ⟨.call rule, cursor⟩ ∧ ∀ scope tracker, ∃ result after,
    Run scope (.call rule) cursor tracker result after ∧
      ∀ another later, Run scope (.call rule) cursor tracker another later → another = result ∧ later = after
  /-- Any budget larger than the source will do, and what is read without one does not matter. -/
  affords : ∀ exhausted budget, source.toList.length < budget → templateWithin exhausted budget start = template start

/-- Every source is recognized by way of less and less of it, within the budget that is one more than its length. -/
theorem template_progresses (source : String) : Progresses source { rest := source.toList } where
  follows := template_follows _
  consumes rule item member _ _ _ _ _ _ run := run_consumes run (body_steady rule item member)
  ends rule cursor := by
    have steady : Steady (.call rule) := nofun
    refine ⟨demands_acc ⟨.call rule, cursor⟩ steady, ?_⟩
    intro scope tracker
    obtain ⟨result, after, run⟩ := run_exists ⟨.call rule, cursor⟩ steady scope tracker
    exact ⟨result, after, run, fun _ _ another => another.unique run⟩
  affords _ _ enough := (template_afforded enough).symm

end Stencil.Proofs.SufficientBudget
