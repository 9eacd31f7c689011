import Stencil.Proofs.ScannedGrammar
import Stencil.Proofs.TerminatingRuns

/-! Runs over one stack. A grammar that keeps the tags that wait for their closing tags on a stack changes that stack as
it goes, also in alternatives that fail later on: taking a tag off comes before it is compared. What is undone is what
was saved before an alternative, an option, an item of a repetition or a look-ahead, and gone back to where that fails.
This is such a machine. An expression has an effect on the number of tags that the run of its rule has on the stack, and
where that effect is defined, only tags of that run are taken off, no tag is missing, and the machine comes to the same
as the runs of the grammar, which keep a stack for each place. -/

namespace Stencil.Proofs.StackRuns
open Markup ScannerReading GrammarRuns ScannedGrammar TerminatingRuns

/-- The run of a rule, by its number among all of them. -/
structure Frame where
  rule : Rule
  number : Nat

/-- A tag that waits, and the run that has put it on the stack. -/
structure OpenTag where
  tag : List Char
  owner : Frame

/-- The top of the stack is about to be taken off, in the run of a rule. -/
structure Removal where
  frame : Frame
  stack : List OpenTag

/-- What is left of the source, the stack, the stacks that have been saved, last one first, and what has happened so
far: how many runs of rules have begun, and what was taken off. -/
structure State where
  rest : List Char
  stack : List OpenTag
  saved : List (List OpenTag) := []
  begun : Nat := 0
  removals : List Removal := []

inductive Verdict where
  | matched
  | failed
  /-- A tag had to be taken off an empty stack to be compared. -/
  | stopped
deriving DecidableEq

namespace State

def save (state : State) : State := { state with saved := state.stack :: state.saved }

/-- Goes back to the stack that was saved last. -/
def back (state : State) : State :=
  match state.saved with
  | [] => state
  | stack :: saved => { state with stack, saved }

/-- Keeps the stack, and forgets the one that was saved last. -/
def forget (state : State) : State := { state with saved := state.saved.tail }

def settled (state : State) : Verdict → State
  | .matched => state.forget
  | .failed => state.back
  | .stopped => state

def atRest (state : State) (rest : List Char) : State := { state with rest }

def noting (state : State) (frame : Frame) : State :=
  { state with removals := state.removals ++ [⟨frame, state.stack⟩] }

/-- Puts the text that was gone over since a place on the stack. -/
def pushing (state : State) (frame : Frame) (start : List Char) : State :=
  { state with stack := ⟨start.take (start.length - state.rest.length), frame⟩ :: state.stack }

/-- The place that the grammar knows of the state. -/
def cursor (state : State) : Cursor := { rest := state.rest, opened := state.stack.map OpenTag.tag }

end State

def Verdict.accepted : Verdict → Verdict
  | .failed => .matched
  | verdict => verdict

def Verdict.negated : Verdict → Verdict
  | .matched => .failed
  | .failed => .matched
  | .stopped => .stopped

/-- A tag is taken off before it is compared. -/
def work (frame : Frame) (state : State) : Terminal → Verdict × State
  | .pop =>
    match state.stack with
    | [] => (.stopped, state.noting frame)
    | entry :: outer =>
      let removed := { state.noting frame with stack := outer }
      if entry.tag.isPrefixOf state.rest then (.matched, removed.atRest (state.rest.drop entry.tag.length))
      else (.failed, removed)
  | .drop =>
    match state.stack with
    | [] => (.failed, state.noting frame)
    | _ :: outer => (.matched, { state.noting frame with stack := outer })
  | terminal =>
    match terminal.read { rest := state.rest } with
    | none => (.failed, state)
    | some next => (.matched, state.atRest next.rest)

/-- A sequence that fails goes back in the source, but not on the stack. -/
inductive Works : Frame → Expression → State → Verdict → State → Prop where
  | terminal {frame state} (terminal : Terminal) :
      Works frame (.terminal terminal) state (work frame state terminal).1 (work frame state terminal).2
  | bothEnds {frame one two state verdict after} (first : Works frame one state verdict after)
      (ends : verdict ≠ .matched) : Works frame (.both one two) state verdict (after.atRest state.rest)
  | both {frame one two state middle verdict after} (first : Works frame one state .matched middle)
      (second : Works frame two middle verdict after) :
      Works frame (.both one two) state verdict (if verdict = .matched then after else after.atRest state.rest)
  | eitherFirst {frame one two state verdict after} (first : Works frame one state.save verdict after)
      (ends : verdict ≠ .failed) : Works frame (.either one two) state verdict (after.settled verdict)
  | eitherSecond {frame one two state between verdict after} (first : Works frame one state.save .failed between)
      (second : Works frame two between.back.save verdict after) :
      Works frame (.either one two) state verdict (after.settled verdict)
  | optional {frame one state verdict after} (inner : Works frame one state.save verdict after) :
      Works frame (.optional one) state verdict.accepted (after.settled verdict)
  | manyEnds {frame one state verdict after} (last : Works frame one state.save verdict after)
      (ends : verdict ≠ .matched) : Works frame (.many one) state verdict.accepted (after.settled verdict)
  | many {frame one state middle verdict after} (first : Works frame one state.save .matched middle)
      (later : Works frame (.many one) middle.forget verdict after) : Works frame (.many one) state verdict after
  | without {frame one state verdict after} (inner : Works frame one state.save verdict after) :
      Works frame (.without one) state verdict.negated (after.back.atRest state.rest)
  | push {frame one state verdict after} (inner : Works frame one state verdict after) :
      Works frame (.push one) state verdict (if verdict = .matched then after.pushing frame state.rest else after)
  | call {frame rule state verdict after}
      (inner : Works ⟨rule, state.begun⟩ (Grammar.body rule) { state with begun := state.begun + 1 } verdict after) :
      Works frame (.call rule) state verdict after

theorem Works.unique {frame : Frame} {expression : Expression} {state first second : State} {one two : Verdict}
    (left : Works frame expression state one first) (right : Works frame expression state two second) :
    one = two ∧ first = second := by
  induction left generalizing two second with
  | terminal terminal =>
    cases right
    exact ⟨rfl, rfl⟩
  | bothEnds _ ends ih =>
    cases right with
    | bothEnds other _ =>
      obtain ⟨rfl, rfl⟩ := ih other
      exact ⟨rfl, rfl⟩
    | both other _ => exact absurd (ih other).1 ends
  | both _ _ ihFirst ihSecond =>
    cases right with
    | bothEnds other ends => exact absurd (ihFirst other).1.symm ends
    | both other later =>
      obtain ⟨_, rfl⟩ := ihFirst other
      obtain ⟨rfl, rfl⟩ := ihSecond later
      exact ⟨rfl, rfl⟩
  | eitherFirst _ ends ih =>
    cases right with
    | eitherFirst other _ =>
      obtain ⟨rfl, rfl⟩ := ih other
      exact ⟨rfl, rfl⟩
    | eitherSecond other _ => exact absurd (ih other).1 ends
  | eitherSecond _ _ ihFirst ihSecond =>
    cases right with
    | eitherFirst other ends => exact absurd (ihFirst other).1.symm ends
    | eitherSecond other later =>
      obtain ⟨_, rfl⟩ := ihFirst other
      obtain ⟨rfl, rfl⟩ := ihSecond later
      exact ⟨rfl, rfl⟩
  | optional _ ih =>
    cases right with
    | optional other =>
      obtain ⟨rfl, rfl⟩ := ih other
      exact ⟨rfl, rfl⟩
  | manyEnds _ ends ih =>
    cases right with
    | manyEnds other _ =>
      obtain ⟨rfl, rfl⟩ := ih other
      exact ⟨rfl, rfl⟩
    | many other _ => exact absurd (ih other).1 ends
  | many _ _ ihFirst ihLater =>
    cases right with
    | manyEnds other ends => exact absurd (ihFirst other).1.symm ends
    | many other later =>
      obtain ⟨_, rfl⟩ := ihFirst other
      exact ihLater later
  | without _ ih =>
    cases right with
    | without other =>
      obtain ⟨rfl, rfl⟩ := ih other
      exact ⟨rfl, rfl⟩
  | push _ ih =>
    cases right with
    | push other =>
      obtain ⟨rfl, rfl⟩ := ih other
      exact ⟨rfl, rfl⟩
  | call _ ih =>
    cases right with
    | call other => exact ih other

variable {frame : Frame} {expression : Expression} {state after : State} {verdict : Verdict}

theorem back_of_saved {stack : List OpenTag} {saved : List (List OpenTag)} (same : state.saved = stack :: saved) :
    state.back = { state with stack, saved } := by
  simp [State.back, same]

theorem back_kept (state : State) :
    state.back.rest = state.rest ∧ state.back.begun = state.begun ∧ state.back.removals = state.removals := by
  unfold State.back
  split <;> exact ⟨rfl, rfl, rfl⟩

theorem settled_kept (state : State) (verdict : Verdict) :
    (state.settled verdict).rest = state.rest ∧ (state.settled verdict).begun = state.begun ∧
      (state.settled verdict).removals = state.removals := by
  cases verdict with
  | matched => exact ⟨rfl, rfl, rfl⟩
  | failed => exact back_kept state
  | stopped => exact ⟨rfl, rfl, rfl⟩

/-- What a run leaves as it was, whatever its expression is. -/
structure Kept (state : State) (verdict : Verdict) (after : State) : Prop where
  saved : verdict ≠ .stopped → after.saved = state.saved
  rest : verdict = .failed → after.rest = state.rest
  begun : state.begun ≤ after.begun

private theorem settled_saved {stack : List OpenTag} {saved : List (List OpenTag)} (same : after.saved = stack :: saved) :
    verdict ≠ .stopped → (after.settled verdict).saved = saved := by
  intro running
  cases verdict with
  | matched => simp [State.settled, State.forget, same]
  | failed => simp [State.settled, back_of_saved same]
  | stopped => exact absurd rfl running

theorem Works.many_found {one : Expression} (run : Works frame (.many one) state verdict after) : verdict ≠ .failed := by
  generalize whole : Expression.many one = expression at run
  induction run with
  | @manyEnds _ _ _ verdict _ _ _ => cases verdict <;> simp [Verdict.accepted]
  | many _ _ _ ih => exact ih whole
  | _ => cases whole

private theorem work_kept (frame : Frame) (state : State) (terminal : Terminal) :
    Kept state (work frame state terminal).1 (work frame state terminal).2 := by
  unfold work
  split
  · split
    · exact ⟨fun _ => rfl, nofun, Nat.le_refl _⟩
    · dsimp only
      split
      · exact ⟨fun _ => rfl, nofun, Nat.le_refl _⟩
      · exact ⟨fun _ => rfl, fun _ => rfl, Nat.le_refl _⟩
  · split
    · exact ⟨fun _ => rfl, fun _ => rfl, Nat.le_refl _⟩
    · exact ⟨fun _ => rfl, nofun, Nat.le_refl _⟩
  · split
    · exact ⟨fun _ => rfl, fun _ => rfl, Nat.le_refl _⟩
    · exact ⟨fun _ => rfl, nofun, Nat.le_refl _⟩

theorem Works.kept (run : Works frame expression state verdict after) : Kept state verdict after := by
  induction run with
  | terminal terminal => exact work_kept _ _ terminal
  | bothEnds _ _ ih => exact ⟨ih.saved, fun _ => rfl, ih.begun⟩
  | @both _ _ _ _ _ verdict _ _ _ ihFirst ihSecond =>
    have begun := ihFirst.begun.trans ihSecond.begun
    split
    next matched =>
      refine ⟨fun running => (ihSecond.saved running).trans (ihFirst.saved nofun), ?_, begun⟩
      intro failed
      cases matched.symm.trans failed
    next => exact ⟨fun running => (ihSecond.saved running).trans (ihFirst.saved nofun), fun _ => rfl, begun⟩
  | @eitherFirst _ _ _ _ verdict after _ ends ih =>
    obtain ⟨_, begun, _⟩ := settled_kept after verdict
    exact ⟨fun running => settled_saved (ih.saved running) running, fun failed => absurd failed ends, begun ▸ ih.begun⟩
  | @eitherSecond _ _ _ _ between verdict after _ _ ihFirst ihSecond =>
    obtain ⟨rest, begun, _⟩ := settled_kept after verdict
    obtain ⟨restBack, begunBack, _⟩ := back_kept between
    have same := back_of_saved (ihFirst.saved nofun)
    refine ⟨fun running => ?_, fun failed => ?_, ?_⟩
    · refine (settled_saved (ihSecond.saved running) running).trans ?_
      rw [same]
    · rw [rest, ihSecond.rest failed]
      exact restBack.trans (ihFirst.rest rfl)
    · rw [begun]
      exact (ihFirst.begun.trans (Nat.le_of_eq begunBack.symm)).trans ihSecond.begun
  | @optional _ _ _ verdict after _ ih | @manyEnds _ _ _ verdict after _ _ ih =>
    obtain ⟨_, begun, _⟩ := settled_kept after verdict
    refine ⟨fun running => ?_, fun failed => ?_, begun ▸ ih.begun⟩
    · have inner : verdict ≠ .stopped := by
        rintro rfl
        exact running rfl
      exact settled_saved (ih.saved inner) inner
    · cases verdict <;> cases failed
  | @many _ _ _ middle _ _ _ later ihFirst ihLater =>
    refine ⟨fun running => ?_, fun failed => absurd failed later.many_found, ihFirst.begun.trans ihLater.begun⟩
    refine (ihLater.saved running).trans ?_
    simp [State.forget, ihFirst.saved nofun, State.save]
  | @without _ _ _ verdict after _ ih =>
    obtain ⟨_, begun, _⟩ := back_kept after
    refine ⟨fun running => ?_, fun _ => rfl, ?_⟩
    · have inner : verdict ≠ .stopped := by
        rintro rfl
        exact running rfl
      simp [State.atRest, back_of_saved (ih.saved inner)]
    · exact ih.begun.trans (Nat.le_of_eq begun.symm)
  | @push _ _ _ verdict _ _ ih =>
    split
    next matched =>
      refine ⟨ih.saved, fun failed => ?_, ih.begun⟩
      cases matched.symm.trans failed
    next => exact ih
  | call _ ih => exact ⟨ih.saved, ih.rest, (Nat.le_succ _).trans ih.begun⟩

theorem Works.undone (run : Works frame expression state.save .failed after) :
    after.back.rest = state.rest ∧ after.back.stack = state.stack ∧ after.back.saved = state.saved := by
  have same := back_of_saved (run.kept.saved nofun)
  rw [same]
  exact ⟨run.kept.rest rfl, rfl, rfl⟩

/-- How many tags of the run of its rule are on the stack behind an expression, by how many there are in front of it.
There is no answer where one might be taken off that is not there, or where there is more than one answer. -/
def heldAfter : Expression → Nat → Option Nat
  | .terminal .pop, held | .terminal .drop, held => if held = 0 then none else some (held - 1)
  | .terminal _, held => some held
  | .both first second, held => (heldAfter first held).bind (heldAfter second)
  | .either first second, held => if heldAfter first held = heldAfter second held then heldAfter first held else none
  | .optional inner, held | .many inner, held => if heldAfter inner held = some held then some held else none
  | .without inner, held => (heldAfter inner held).map fun _ => held
  | .push inner, held => (heldAfter inner held).map (· + 1)
  | .call _, held => some held

theorem body_held (rule : Rule) : heldAfter (Grammar.body rule) 0 = some 0 := by
  cases rule <;> rfl

/-- What was noted on the way, and that all of it is like this. -/
def Notes (like : Removal → Prop) (state after : State) : Prop :=
  ∃ removals, after.removals = state.removals ++ removals ∧ ∀ removal ∈ removals, like removal

namespace Notes
variable {like other : Removal → Prop} {first second third : State}

theorem none (same : second.removals = first.removals) : Notes like first second := ⟨[], by simp [same], nofun⟩

theorem one {frame : Frame} (shown : like ⟨frame, first.stack⟩) : Notes like first (first.noting frame) :=
  ⟨[⟨frame, first.stack⟩], rfl, List.forall_mem_singleton.mpr shown⟩

theorem trans (left : Notes like first second) (right : Notes like second third) : Notes like first third := by
  obtain ⟨removals, same, each⟩ := left
  obtain ⟨more, same', each'⟩ := right
  exact ⟨removals ++ more, by rw [same', same, List.append_assoc], List.forall_mem_append.mpr ⟨each, each'⟩⟩

theorem mono (notes : Notes like first second) (implies : ∀ removal, like removal → other removal) :
    Notes other first second := by
  obtain ⟨removals, same, each⟩ := notes
  exact ⟨removals, same, fun removal member => implies removal (each removal member)⟩

theorem congr {start last : State} (notes : Notes like first second) (starts : first.removals = start.removals)
    (ends : last.removals = second.removals) : Notes like start last := by
  obtain ⟨removals, same, each⟩ := notes
  exact ⟨removals, by rw [ends, same, starts], each⟩

end Notes

/-- What is taken off stands above these tags, and the same run of a rule has put it there. -/
def Removal.Own (outer : List OpenTag) (removal : Removal) : Prop :=
  ∃ entry above, removal.stack = entry :: (above ++ outer) ∧ entry.owner = removal.frame

/-- It is taken off in the given run of a rule, or in one that has begun since. -/
def Removal.Since (frame : Frame) (outer : List OpenTag) (state : State) (removal : Removal) : Prop :=
  removal.Own outer ∧ (removal.frame = frame ∨ state.begun ≤ removal.frame.number)

/-- So many tags of a run of a rule are on the stack, on top of others. -/
def Holds (frame : Frame) (stack : List OpenTag) (held : Nat) (outer : List OpenTag) : Prop :=
  ∃ own, stack = own ++ outer ∧ own.length = held ∧ ∀ entry ∈ own, entry.owner = frame

theorem holds_none (frame : Frame) (stack : List OpenTag) : Holds frame stack 0 stack := ⟨[], rfl, rfl, nofun⟩

/-- A run that takes off tags of its own only, and has so many of them in the end. -/
structure Ordered (frame : Frame) (held : Nat) (outer : List OpenTag) (state : State) (verdict : Verdict) (after : State) :
    Prop where
  running : verdict ≠ .stopped
  holds : verdict = .matched → Holds frame after.stack held outer
  notes : Notes (Removal.Since frame outer state) state after

theorem Notes.later {middle : State} {outer : List OpenTag} (notes : Notes (Removal.Since frame outer middle) middle after)
    (begun : state.begun ≤ middle.begun) : Notes (Removal.Since frame outer state) middle after :=
  notes.mono fun _ since => ⟨since.1, since.2.imp_right begun.trans⟩

private theorem plain_ordered {held : Nat} {outer : List OpenTag} {terminal : Terminal} (holds : Holds frame state.stack held outer) :
    let result := match terminal.read { rest := state.rest } with
      | none => (Verdict.failed, state)
      | some next => (Verdict.matched, state.atRest next.rest)
    Ordered frame held outer state result.1 result.2 := by
  intro result
  simp only [result]
  split
  · exact ⟨by simp, by simp, .none rfl⟩
  · exact ⟨by simp, fun _ => holds, .none rfl⟩

private theorem own_noted {entry : OpenTag} {own outer : List OpenTag} (stack : state.stack = entry :: (own ++ outer))
    (mine : entry.owner = frame) : Notes (Removal.Since frame outer state) state (state.noting frame) :=
  .one ⟨⟨entry, own, stack, mine⟩, .inl rfl⟩

private theorem work_ordered {held last : Nat} {outer : List OpenTag} (terminal : Terminal)
    (holds : Holds frame state.stack held outer) (effect : heldAfter (.terminal terminal) held = some last) :
    Ordered frame last outer state (work frame state terminal).1 (work frame state terminal).2 := by
  obtain ⟨own, stack, rfl, owned⟩ := holds
  cases terminal with
  | text | anyCase | member | finish =>
    cases effect
    exact plain_ordered ⟨own, stack, rfl, owned⟩
  | pop =>
    cases own with
    | nil => cases effect
    | cons entry own =>
      obtain ⟨mine, owned⟩ := List.forall_mem_cons.mp owned
      cases effect
      rw [List.cons_append] at stack
      have noted := own_noted stack mine
      simp only [work, stack]
      split
      · exact ⟨nofun, fun _ => ⟨own, rfl, rfl, owned⟩, noted⟩
      · exact ⟨nofun, nofun, noted⟩
  | drop =>
    cases own with
    | nil => cases effect
    | cons entry own =>
      obtain ⟨mine, owned⟩ := List.forall_mem_cons.mp owned
      cases effect
      rw [List.cons_append] at stack
      have noted := own_noted stack mine
      simp only [work, stack]
      exact ⟨nofun, fun _ => ⟨own, rfl, rfl, owned⟩, noted⟩

private theorem either_effect {one two : Expression} {held last : Nat}
    (effect : heldAfter (.either one two) held = some last) :
    heldAfter one held = some last ∧ heldAfter two held = some last := by
  rw [heldAfter] at effect
  split at effect
  next same => exact ⟨effect, same ▸ effect⟩
  next => cases effect

private theorem still_effect {inner : Expression} {held last : Nat}
    (effect : (if heldAfter inner held = some held then some held else none) = some last) :
    heldAfter inner held = some held ∧ last = held := by
  split at effect
  next same => exact ⟨same, (Option.some.inj effect).symm⟩
  next => cases effect

namespace Ordered
variable {held last : Nat} {outer : List OpenTag}

private theorem settled (inner : Ordered frame held outer state.save verdict after) :
    Ordered frame held outer state verdict (after.settled verdict) := by
  refine ⟨inner.running, fun matched => ?_, inner.notes.congr rfl (settled_kept after verdict).2.2⟩
  subst matched
  exact inner.holds rfl

private theorem second {one : Expression} {between : State} (first : Ordered frame held outer state.save .failed between)
    (run : Works frame one state.save .failed between) (inner : Ordered frame last outer between.back verdict after) :
    Ordered frame last outer state verdict after := by
  obtain ⟨_, begun, removals⟩ := back_kept between
  have kept : state.begun ≤ between.back.begun := run.kept.begun.trans (Nat.le_of_eq begun.symm)
  exact ⟨inner.running, inner.holds, (first.notes.congr rfl removals).trans (inner.notes.later kept)⟩

private theorem accepted {one : Expression} (inner : Ordered frame held outer state.save verdict after)
    (run : Works frame one state.save verdict after) (holds : Holds frame state.stack held outer) :
    Ordered frame held outer state verdict.accepted (after.settled verdict) := by
  refine ⟨?_, fun _ => ?_, inner.notes.congr rfl (settled_kept after verdict).2.2⟩
  · cases verdict <;> first | exact absurd rfl inner.running | nofun
  · cases verdict with
    | matched => exact inner.holds rfl
    | failed => exact run.undone.2.1 ▸ holds
    | stopped => exact absurd rfl inner.running

private theorem negated {one : Expression} (inner : Ordered frame last outer state.save verdict after)
    (run : Works frame one state.save verdict after) (holds : Holds frame state.stack held outer) :
    Ordered frame held outer state verdict.negated (after.back.atRest state.rest) := by
  refine ⟨?_, fun _ => ?_, inner.notes.congr rfl (back_kept after).2.2⟩
  · cases verdict <;> first | exact absurd rfl inner.running | nofun
  · have restored : after.back.stack = state.stack := by
      rw [back_of_saved (run.kept.saved inner.running)]
    exact restored ▸ holds

private theorem pushing (inner : Ordered frame held outer state verdict after) :
    Ordered frame (held + 1) outer state verdict (if verdict = .matched then after.pushing frame state.rest else after) := by
  split
  next matched =>
    refine ⟨inner.running, fun _ => ?_, inner.notes.congr rfl rfl⟩
    obtain ⟨own, stack, length, owned⟩ := inner.holds matched
    exact ⟨_ :: own, congrArg _ stack, congrArg _ length, List.forall_mem_cons.mpr ⟨rfl, owned⟩⟩
  next other => exact ⟨inner.running, fun matched => absurd matched other, inner.notes⟩

private theorem called {rule : Rule}
    (inner : Ordered ⟨rule, state.begun⟩ 0 state.stack { state with begun := state.begun + 1 } verdict after)
    (holds : Holds frame state.stack held outer) : Ordered frame held outer state verdict after := by
  refine ⟨inner.running, fun matched => ?_, ?_⟩
  · obtain ⟨own, stack, length, _⟩ := inner.holds matched
    rw [List.length_eq_zero_iff.mp length] at stack
    exact stack ▸ holds
  · obtain ⟨own, stack, _⟩ := holds
    refine (inner.notes.congr rfl rfl).mono fun removal since => ⟨?_, .inr ?_⟩
    · obtain ⟨entry, above, reached, mine⟩ := since.1
      exact ⟨entry, above ++ own, by rw [reached, stack, List.append_assoc], mine⟩
    · rcases since.2 with same | later
      · rw [same]
      · exact (Nat.le_succ _).trans later

end Ordered

theorem Works.ordered {held last : Nat} {outer : List OpenTag} (run : Works frame expression state verdict after)
    (holds : Holds frame state.stack held outer) (effect : heldAfter expression held = some last) :
    Ordered frame last outer state verdict after := by
  induction run generalizing held last outer with
  | terminal terminal => exact work_ordered terminal holds effect
  | bothEnds _ ends ih =>
    obtain ⟨middle, first, _⟩ := Option.bind_eq_some_iff.mp effect
    have inner := ih holds first
    exact ⟨inner.running, fun matched => absurd matched ends, inner.notes⟩
  | both run _ ihFirst ihSecond =>
    obtain ⟨middle, first, second⟩ := Option.bind_eq_some_iff.mp effect
    have one := ihFirst holds first
    have two := ihSecond (one.holds rfl) second
    have notes := one.notes.trans (two.notes.later run.kept.begun)
    split
    next matched => exact ⟨two.running, two.holds, notes⟩
    next other => exact ⟨two.running, fun matched => absurd matched other, notes⟩
  | eitherFirst _ _ ih => exact (ih holds (either_effect effect).1).settled
  | eitherSecond run _ ihFirst ihSecond =>
    obtain ⟨first, second⟩ := either_effect effect
    have one := ihFirst holds first
    exact one.second run (ihSecond (run.undone.2.1 ▸ holds) second).settled
  | optional run ih | manyEnds run _ ih =>
    obtain ⟨same, rfl⟩ := still_effect effect
    exact (ih holds same).accepted run holds
  | many run _ ihFirst ihLater =>
    obtain ⟨same, rfl⟩ := still_effect effect
    have one := ihFirst holds same
    have later := ihLater (one.holds rfl) effect
    exact ⟨later.running, later.holds, (one.notes.congr rfl rfl).trans ((later.notes.later run.kept.begun).congr rfl rfl)⟩
  | without run ih =>
    obtain ⟨_, inside, rfl⟩ := Option.map_eq_some_iff.mp effect
    exact (ih holds inside).negated run holds
  | push _ ih =>
    obtain ⟨middle, inside, rfl⟩ := Option.map_eq_some_iff.mp effect
    exact (ih holds inside).pushing
  | @call frame rule state _ _ _ ih =>
    cases effect
    have inner := @ih 0 0 state.stack (holds_none _ state.stack) (body_held rule)
    exact inner.called holds

/-- Where the machine has got to, if it has matched. -/
def answer (verdict : Verdict) (state : State) : Option Cursor :=
  if verdict = .matched then some state.cursor else none

private theorem answer_some {cursor : Cursor} (found : some cursor = answer verdict state) :
    verdict = .matched ∧ state.cursor = cursor := by
  unfold answer at found
  split at found
  next matched => exact ⟨matched, (Option.some.inj found).symm⟩
  next => cases found

private theorem answer_none (found : none = answer verdict state) : verdict ≠ .matched := by
  rintro rfl
  cases found

private theorem Works.back_cursor (run : Works frame expression state.save .failed after) : after.back.cursor = state.cursor := by
  obtain ⟨rest, stack, _⟩ := run.undone
  exact cursor_ext rest (congrArg (List.map OpenTag.tag) stack)

private theorem plain_reads {terminal : Terminal} {condition : Prop} [Decidable condition] {here there : Cursor}
    (reads : terminal.read { rest := state.rest } = if condition then some here else none)
    (again : terminal.read state.cursor = if condition then some there else none) (rest : there.rest = here.rest)
    (opened : there.opened = state.cursor.opened) :
    let result := match terminal.read { rest := state.rest } with
      | none => (Verdict.failed, state)
      | some next => (Verdict.matched, state.atRest next.rest)
    terminal.read state.cursor = answer result.1 result.2 := by
  intro result
  simp only [result]
  rw [reads, again]
  split
  · exact congrArg some (cursor_ext rest opened)
  · rfl

private theorem work_reads {held last : Nat} {outer : List OpenTag} (terminal : Terminal)
    (holds : Holds frame state.stack held outer) (effect : heldAfter (.terminal terminal) held = some last) :
    terminal.read state.cursor = answer (work frame state terminal).1 (work frame state terminal).2 := by
  obtain ⟨own, stack, rfl, _⟩ := holds
  cases terminal with
  | text | anyCase | member | finish => exact plain_reads rfl rfl rfl rfl
  | pop =>
    cases own with
    | nil => cases effect
    | cons entry own =>
      rw [List.cons_append] at stack
      simp only [work, Terminal.read, State.cursor, stack, List.map_cons]
      split
      · exact congrArg some (cursor_ext rfl rfl)
      · rfl
  | drop =>
    cases own with
    | nil => cases effect
    | cons entry own =>
      rw [List.cons_append] at stack
      simp only [work, Terminal.read, State.cursor, stack, List.map_cons]
      exact congrArg some (cursor_ext rfl rfl)

private def Comes (frame : Frame) (expression : Expression) (state : State) (found : Option Cursor) : Prop :=
  ∃ verdict after, Works frame expression state verdict after ∧ found = answer verdict after

/-- What comes of an expression behind a stack that was saved. -/
private inductive Tried (frame : Frame) (expression : Expression) (state : State) : Option Cursor → Prop where
  | matched {after : State} (works : Works frame expression state.save .matched after) :
      Tried frame expression state (some after.cursor)
  | failed {after : State} (works : Works frame expression state.save .failed after) : Tried frame expression state none

private theorem Comes.tried {found : Option Cursor} {held last : Nat} {outer : List OpenTag}
    (comes : Comes frame expression state.save found) (holds : Holds frame state.stack held outer)
    (effect : heldAfter expression held = some last) : Tried frame expression state found := by
  obtain ⟨verdict, after, works, rfl⟩ := comes
  cases verdict with
  | matched => exact .matched works
  | failed => exact .failed works
  | stopped => exact absurd rfl (works.ordered holds effect).running

private theorem Tried.optional {found : Option Cursor} (tried : Tried frame expression state found) :
    Comes frame (.optional expression) state (some (found.getD state.cursor)) := by
  cases tried with
  | matched works => exact ⟨_, _, .optional works, rfl⟩
  | failed works => exact ⟨_, _, .optional works, congrArg some works.back_cursor.symm⟩

private theorem Tried.without {found : Option Cursor} (tried : Tried frame expression state found) :
    Comes frame (.without expression) state (if found.isSome then none else some state.cursor) := by
  cases tried with
  | matched works => exact ⟨_, _, .without works, rfl⟩
  | failed works =>
    have tags := congrArg (List.map OpenTag.tag) works.undone.2.1.symm
    exact ⟨_, _, .without works, congrArg some (cursor_ext rfl tags)⟩

private theorem Comes.push {found : Option Cursor} (comes : Comes frame expression state found) :
    Comes frame (.push expression) state
      (found.map fun next => { next with opened := taken state.cursor next :: next.opened }) := by
  obtain ⟨verdict, after, works, rfl⟩ := comes
  refine ⟨_, _, .push works, ?_⟩
  unfold answer
  split
  next =>
    have text : taken state.cursor after.cursor = state.rest.take (state.rest.length - after.rest.length) := by
      rw [taken, after.cursor.left_eq, state.cursor.left_eq]
      rfl
    exact congrArg some (cursor_ext rfl (congrArg (· :: after.stack.map OpenTag.tag) text))
  next => rfl

theorem works_of_run {scope : Scope} {cursor : Cursor} {tracker noted : Tracker} {result : Option (Cursor × List Pair)}
    {held last : Nat} {outer : List OpenTag} (run : Run scope expression cursor tracker result noted)
    (same : state.cursor = cursor) (holds : Holds frame state.stack held outer)
    (effect : heldAfter expression held = some last) :
    ∃ verdict after, Works frame expression state verdict after ∧ result.map Prod.fst = answer verdict after := by
  induction run generalizing frame state held last outer with
  | terminal terminal =>
    subst same
    refine ⟨_, _, .terminal terminal, ?_⟩
    rw [← work_reads terminal holds effect, Option.map_map]
    exact Option.map_id'
  | bothFails _ ih =>
    obtain ⟨middle, first, _⟩ := Option.bind_eq_some_iff.mp effect
    obtain ⟨verdict, after, works, found⟩ := ih same holds first
    have ends := answer_none found
    exact ⟨_, _, .bothEnds works ends, (if_neg ends).symm⟩
  | both _ _ ihFirst ihSecond =>
    obtain ⟨middle, first, second⟩ := Option.bind_eq_some_iff.mp effect
    obtain ⟨verdict, between, works, found⟩ := ihFirst same holds first
    obtain ⟨rfl, reached⟩ := answer_some found
    obtain ⟨verdict, after, later, found⟩ := ihSecond reached ((works.ordered holds first).holds rfl) second
    refine ⟨_, _, .both works later, ?_⟩
    rw [Option.map_map]
    refine Eq.trans found ?_
    unfold answer
    split <;> rfl
  | eitherFirst _ ih =>
    obtain ⟨verdict, after, works, found⟩ := @ih frame state.save _ _ _ same holds (either_effect effect).1
    obtain ⟨rfl, reached⟩ := answer_some found
    exact ⟨_, _, .eitherFirst works nofun, congrArg some reached.symm⟩
  | eitherSecond _ _ ihFirst ihSecond =>
    obtain ⟨first, second⟩ := either_effect effect
    have tried := Comes.tried (@ihFirst frame state.save _ _ _ same holds first) holds first
    cases tried with
    | @failed between works =>
      have restored : Holds frame between.back.stack held outer := works.undone.2.1 ▸ holds
      obtain ⟨verdict, after, later, found⟩ :=
        @ihSecond frame between.back.save _ _ _ (works.back_cursor.trans same) restored second
      refine ⟨_, _, .eitherSecond works later, found.trans ?_⟩
      cases verdict <;> rfl
  | @optional _ _ _ _ result _ _ ih =>
    subst same
    obtain ⟨inside, _⟩ := still_effect effect
    have tried := Comes.tried (@ih frame state.save _ _ _ rfl holds inside) holds inside
    cases result <;> exact tried.optional
  | manyStops _ ih =>
    subst same
    obtain ⟨inside, _⟩ := still_effect effect
    have tried := Comes.tried (@ih frame state.save _ _ _ rfl holds inside) holds inside
    cases tried with
    | failed works => exact ⟨_, _, .manyEnds works nofun, congrArg some works.back_cursor.symm⟩
  | many _ _ ihFirst ihLater =>
    obtain ⟨inside, rfl⟩ := still_effect effect
    obtain ⟨verdict, middle, works, found⟩ := @ihFirst frame state.save _ _ _ same holds inside
    obtain ⟨rfl, reached⟩ := answer_some found
    have restored : Holds frame middle.forget.stack last outer := (works.ordered holds inside).holds rfl
    obtain ⟨verdict, after, later, found⟩ := @ihLater frame middle.forget _ _ _ reached restored effect
    exact ⟨_, _, .many works later, found⟩
  | @without _ _ _ _ result _ _ ih =>
    subst same
    obtain ⟨_, inside, _⟩ := Option.map_eq_some_iff.mp effect
    have tried := Comes.tried (@ih frame state.save _ _ _ rfl holds inside) holds inside
    cases result <;> exact tried.without
  | @push _ _ _ _ result _ _ ih =>
    subst same
    obtain ⟨_, inside, _⟩ := Option.map_eq_some_iff.mp effect
    have comes := Comes.push (ih rfl holds inside)
    cases result <;> exact comes
  | @call _ rule cursor _ result _ _ ih =>
    cases effect
    obtain ⟨verdict, after, works, found⟩ :=
      @ih ⟨rule, state.begun⟩ { state with begun := state.begun + 1 } _ _ _ same (holds_none _ state.stack) (body_held rule)
    refine ⟨_, _, .call works, ?_⟩
    rw [Option.map_map]
    exact found

end Stencil.Proofs.StackRuns
