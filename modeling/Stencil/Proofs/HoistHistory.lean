import Stencil.Proofs.HoistInvariant

/-! The history of a hoist table. Whatever has been done with it, its declarations are numbered from one on
in their order, and until it is cleared a text keeps the identifier that it was given first. -/

namespace Stencil.Proofs.HoistHistory
open HoistTable HoistInvariant

/-- The table after these steps. A table may go from one session to another, so each step has the token of
the session that it is taken in. -/
def history (table : HoistTable) (steps : List (String × Step)) : HoistTable :=
  steps.foldl (fun table step => (Session.run ⟨step.1, table⟩ step.2).2.table) table

theorem history_numbered {table : HoistTable} (numbered : Numbered table) (steps : List (String × Step)) :
    Numbered (history table steps) := by
  induction steps generalizing table with
  | nil => exact numbered
  | cons step steps ih => exact ih (@run_numbered ⟨step.1, table⟩ numbered step.2)

private theorem addStatics_known {table : HoistTable} (numbered : Numbered table) {hoisted : Hoisted}
    (member : hoisted ∈ table.statics) : table.addStatics hoisted.text = (hoisted.identifier, table) := by
  rcases addStatics_cases table hoisted.text with ⟨declared, inside, same, result⟩ | ⟨unknown, _⟩
  · have declaredOnce := List.inj_on_of_nodup_map numbered.texts inside member same
    rw [result, declaredOnce]
  · exact absurd (List.mem_map_of_mem member) unknown

def Uncleared (steps : List (String × Step)) : Prop := ∀ step ∈ steps, step.2 ≠ .clear

private theorem history_kept {holds : HoistTable → Prop} (kept : Kept holds) {table : HoistTable}
    {steps : List (String × Step)} (uncleared : Uncleared steps) (before : holds table) : holds (history table steps) := by
  induction steps generalizing table with
  | nil => exact before
  | cons step steps ih =>
    obtain ⟨first, others⟩ := List.forall_mem_cons.mp uncleared
    exact ih others (@Kept.run holds kept ⟨step.1, table⟩ step.2 first before)

/-- What the table holds, a later one still holds at the same place and under the same name. -/
structure Continues (table later : HoistTable) : Prop where
  statics : table.statics <+: later.statics
  literals : table.literals <+: later.literals
  kept : ∀ hoisted ∈ table.statics, later.addStatics hoisted.text = (hoisted.identifier, later)

private theorem history_continues {table : HoistTable} (numbered : Numbered table) {steps : List (String × Step)}
    (uncleared : Uncleared steps) : Continues table (history table steps) := by
  have statics : table.statics <+: (history table steps).statics :=
    history_kept (grows table) uncleared (List.prefix_refl _)
  refine ⟨statics, history_kept (literals_grow table) uncleared (List.prefix_refl _), ?_⟩
  intro hoisted member
  exact addStatics_known (history_numbered numbered steps) (statics.subset member)

theorem added_alike {table : HoistTable} (numbered : Numbered table) {steps : List (String × Step)}
    (uncleared : Uncleared steps) (first second : String) :
    (table.addStatics first).1 = ((history (table.addStatics first).2 steps).addStatics second).1 ↔ first = second := by
  have numberedFirst := numbered_kept.statics table first numbered
  have numberedBetween := history_numbered numberedFirst steps
  have declaredFirst := addStatics_declared table first
  have continues := history_continues numberedFirst uncleared
  constructor
  · intro same
    have declaredSecond := addStatics_declared (history (table.addStatics first).2 steps) second
    have grown := (grows _).statics _ second (List.prefix_refl (history (table.addStatics first).2 steps).statics)
    have still := grown.subset (continues.statics.subset declaredFirst)
    exact (numbered_kept.statics _ second numberedBetween).text_unique still (same ▸ declaredSecond)
  · intro same
    subst same
    rw [continues.kept _ declaredFirst]

/-- What holds of a table, and of what it becomes until it is cleared. -/
structure InOrder (table : HoistTable) : Prop where
  counted : table.count = table.statics.length
  identifiers : table.statics.map Hoisted.identifier =
    (List.range table.size).map fun index => "hoisted" ++ (index + 1).repr
  texts : (table.statics.map Hoisted.text).Nodup
  size : table.size = table.statics.length
  isEmpty : table.isEmpty = true ↔ table.statics = [] ∧ table.literals = []
  continues : ∀ steps, Uncleared steps → Continues table (history table steps)
  alike : ∀ steps, Uncleared steps → ∀ first second,
    (table.addStatics first).1 = ((history (table.addStatics first).2 steps).addStatics second).1 ↔ first = second

/-- However long the history of a table is and whatever has been done in it, the table is in order. -/
theorem history_in_order (steps : List (String × Step)) : InOrder (history .empty steps) := by
  have numbered := history_numbered numbered_empty steps
  exact
    { counted := numbered.counted
      identifiers := numbered.identifiers
      texts := numbered.texts
      size := rfl
      isEmpty := by simp [HoistTable.isEmpty]
      continues := fun later uncleared => history_continues numbered uncleared
      alike := fun later uncleared => added_alike numbered uncleared }

/-- Numbers start again behind a clearing. -/
example : (history .empty [("k", .addStatics "[a]"), ("k", .clear), ("k", .addStatics "[b]"),
    ("k", .addStatics "[a]")]).statics = [⟨"hoisted1", "[b]"⟩, ⟨"hoisted2", "[a]"⟩] := by decide

end Stencil.Proofs.HoistHistory
