import Stencil.Proofs.FaultPlaces
import Stencil.Proofs.ScannedGrammar

/-! Faults of the grammar say what was expected. Where a source does not match, the end of input is noted at the place
where the nodes stopped, unless something has been noted farther on; so there is always a rule to tell of, and it is
not in front of that place. Nothing is ever noted for what was not to match. -/

namespace Stencil.Proofs.GrammarFaults
open Markup Scanner ScannerReading MarkupReading GrammarRuns ScannedGrammar FaultPlaces
open Text (Place)

/-- The frontier has not gone back, and still has rules if it had some or has gone on. -/
private structure Onward (before after : Frontier) : Prop where
  left : after.left ≤ before.left
  moved : after.left < before.left → after.rules ≠ []
  kept : before.rules ≠ [] → after.rules ≠ []

private theorem Onward.refl (frontier : Frontier) : Onward frontier frontier :=
  ⟨Nat.le_refl _, fun less => absurd less (Nat.lt_irrefl _), id⟩

private theorem Onward.trans {first second third : Frontier} (earlier : Onward first second) (later : Onward second third) :
    Onward first third where
  left := later.left.trans earlier.left
  moved := by
    intro less
    by_cases last : third.left < second.left
    · exact later.moved last
    · exact later.kept (earlier.moved (by omega))
  kept := fun some => later.kept (earlier.kept some)

private theorem record_onward (frontier : Frontier) (rule : Rule) (left before : Nat) :
    Onward frontier (frontier.record rule left before) := by
  unfold Frontier.record
  split
  · exact .refl frontier
  · split
    next nearer => exact ⟨Nat.le_of_lt nearer, by simp, by simp⟩
    next =>
      split
      next same => exact ⟨Nat.le_of_eq same, by simp, by simp⟩
      next => exact .refl frontier

mutual

private theorem follow_onward (frontier : Frontier) (attempt : Attempt) : Onward frontier (attempt.follow frontier) := by
  match attempt with
  | .run rule left matched inner =>
    have within := followAll_onward frontier inner
    rw [Attempt.follow]
    cases matched with
    | true => exact within
    | false => exact within.trans (record_onward _ _ _ _)
termination_by structural attempt

private theorem followAll_onward (frontier : Frontier) (attempts : List Attempt) :
    Onward frontier (followAll frontier attempts) := by
  match attempts with
  | [] => exact .refl frontier
  | attempt :: later => exact (follow_onward frontier attempt).trans (followAll_onward _ later)
termination_by structural attempts

end

/-- What has not been noted before is noted, unless something has been noted farther on. -/
private theorem record_noted (frontier : Frontier) (rule : Rule) {left : Nat}
    (farther : frontier.left < left → frontier.rules ≠ []) :
    (frontier.record rule left (frontier.countAt left)).rules ≠ [] ∧
      (frontier.record rule left (frontier.countAt left)).left ≤ left := by
  rw [Frontier.record, if_neg (by omega)]
  rcases Nat.lt_trichotomy left frontier.left with nearer | same | passed
  · rw [if_pos nearer]
    exact ⟨by simp, Nat.le_refl _⟩
  · rw [if_neg (by omega), if_pos same]
    exact ⟨by simp, Nat.le_refl _⟩
  · rw [if_neg (by omega), if_neg (by omega)]
    exact ⟨farther passed, Nat.le_of_lt passed⟩

private theorem forest_reads {budget : Nat} {cursor : Cursor} (enough : cursor.left < budget) :
    ∃ pieces stop, Reads (forest budget) cursor pieces stop := by
  rcases reads_or_fails (forest budget) cursor with failed | reads
  · obtain ⟨pairs, run⟩ := forest_follows enough ⟨0, []⟩
    have found := run.many_found
    rw [show (forest budget cursor).found = none from failed] at found
    cases found
  · exact reads

private theorem endOfInput_fails {cursor : Cursor} (failed : Fails endOfInput cursor) :
    endOfInput cursor = ⟨none, [.run .endOfInput cursor.left false []]⟩ := by
  have outcome : (do require (← lookAhead).isEmpty) cursor = require cursor.rest.isEmpty cursor :=
    SilentScanners.bind_silent rfl
  have failed' : (require cursor.rest.isEmpty cursor).found = none := by
    rw [← outcome]
    exact failed
  rw [endOfInput, named, outcome, failed']
  cases cursor.rest.isEmpty <;> rfl

private theorem template_fails {cursor : Cursor} (failed : Fails template cursor) :
    ∃ pieces stop, Reads (forest (cursor.rest.length + 1)) cursor pieces stop ∧
      (template cursor).trace = [.run .template cursor.left false
        ((forest (cursor.rest.length + 1) cursor).trace ++ [.run .endOfInput stop.left false []])] := by
  obtain ⟨pieces, stop, reads⟩ := @forest_reads (cursor.rest.length + 1) cursor (by rw [cursor.left_eq]; omega)
  have found : (forest (cursor.rest.length + 1) cursor).found = some (pieces, stop) := reads
  refine ⟨pieces, stop, reads, ?_⟩
  have outcome : (do
      let pieces ← forest ((← lookAhead).length + 1)
      endOfInput
      return pieces) cursor = andThen (forest (cursor.rest.length + 1)) (fun pieces => do endOfInput; return pieces)
        cursor := SilentScanners.bind_silent rfl
  have whole : template cursor = ⟨((do endOfInput; return pieces) stop).found, [.run .template cursor.left
      ((do endOfInput; return pieces) stop).found.isSome ((forest (cursor.rest.length + 1) cursor).trace ++
        ((do endOfInput; return pieces) stop).trace)]⟩ := by
    rw [template, named, outcome]
    simp only [andThen, found, Attempt.sequence_eq]
  rcases reads_or_fails endOfInput stop with unended | ⟨done, next, ended⟩
  · rw [whole, SilentScanners.bind_fails unended, endOfInput_fails unended]
    rfl
  · have read : Reads (do endOfInput; return pieces) stop pieces next :=
      reads_bind.mpr ⟨done, next, ended, reads_pure.mpr ⟨rfl, rfl⟩⟩
    rw [Reads] at read
    rw [Fails, whole, read] at failed
    cases failed

/-- The frontier of a failed template has rules, and is not in front of the place where the nodes stopped. -/
private theorem template_noted {cursor : Cursor} (failed : Fails template cursor) :
    ∃ pieces stop, Reads (forest (cursor.rest.length + 1)) cursor pieces stop ∧ stop.left ≤ cursor.left ∧
      (followAll ⟨cursor.left, []⟩ (template cursor).trace).rules ≠ [] ∧
      (followAll ⟨cursor.left, []⟩ (template cursor).trace).left ≤ stop.left := by
  obtain ⟨pieces, stop, reads, trace⟩ := template_fails failed
  have follows : Follows (forest (cursor.rest.length + 1)) (.many Grammar.node) cursor :=
    forest_follows (by rw [cursor.left_eq]; omega)
  have farther := (follows.farther reads).1
  refine ⟨pieces, stop, reads, farther, ?_⟩
  have start := followAll_onward ⟨cursor.left, []⟩ (forest (cursor.rest.length + 1) cursor).trace
  have whole : followAll ⟨cursor.left, []⟩ (template cursor).trace =
      ((followAll ⟨cursor.left, []⟩ (forest (cursor.rest.length + 1) cursor).trace).record .endOfInput stop.left
        ((followAll ⟨cursor.left, []⟩ (forest (cursor.rest.length + 1) cursor).trace).countAt stop.left)).record .template
        cursor.left (Frontier.countAt ⟨cursor.left, []⟩ cursor.left) := by
    rw [trace, followAll, followAll, Attempt.follow, followAll_append]
    rfl
  rw [whole]
  generalize followAll ⟨cursor.left, []⟩ (forest (cursor.rest.length + 1) cursor).trace = nodes at start
  obtain ⟨some, left⟩ := record_noted nodes .endOfInput fun passed => start.moved (passed.trans_le farther)
  have last := record_onward (nodes.record .endOfInput stop.left (nodes.countAt stop.left)) .template cursor.left
    (Frontier.countAt ⟨cursor.left, []⟩ cursor.left)
  exact ⟨last.kept some, last.left.trans left⟩

/-- Labels in a row, as `a, b or c`. -/
def listed (labels : List String) : Option String :=
  match labels.getLast? with
  | none => none
  | some last =>
    if labels.dropLast.isEmpty then some last else some (", ".intercalate labels.dropLast ++ " or " ++ last)

/-- The labels of rules, which are taken in the order of the grammar; every label once. -/
def labelsOf (rules : List Rule) : List Label := ((Rule.all.filter rules.contains).map Rule.label).eraseDups

def described (rules : List Rule) : Option String := listed ((labelsOf rules).map Label.wording)

/-- What is said of the rules that were tracked. -/
def messageOf (tracker : Tracker) : String :=
  match described tracker.negatives, described tracker.positives with
  | none, none => "unexpected input"
  | some unexpected, none => "unexpected " ++ unexpected
  | none, some expected => "expected " ++ expected
  | some unexpected, some expected => "unexpected " ++ unexpected ++ "; expected " ++ expected

private theorem joinLabels_concat (front : List Label) (last : Label) :
    joinLabels (front ++ [last]) = if front.isEmpty then last.wording
      else ", ".intercalate (front.map Label.wording) ++ " or " ++ last.wording := by
  induction front with
  | nil => rfl
  | cons first front ih =>
    cases front with
    | nil => simp [joinLabels]
    | cons second front =>
      have step : joinLabels (first :: second :: front ++ [last]) =
          first.wording ++ ", " ++ joinLabels (second :: front ++ [last]) := by
        cases front <;> rfl
      rw [step, ih]
      simp [String.intercalate_cons_cons, String.append_assoc]

private theorem listed_join {labels : List Label} (some : labels ≠ []) :
    listed (labels.map Label.wording) = Option.some (joinLabels labels) := by
  rcases List.eq_nil_or_concat labels with none | ⟨front, last, rfl⟩
  · exact absurd none some
  · rw [List.concat_eq_append, joinLabels_concat, listed]
    simp only [List.map_append, List.map_cons, List.map_nil, List.getLast?_concat, List.dropLast_concat, List.isEmpty_map]
    split <;> rfl

private theorem nodup_eraseDups (labels : List Label) : labels.eraseDups.Nodup := by
  induction size : labels.length using Nat.strong_induction_on generalizing labels with
  | _ length ih =>
    cases labels with
    | nil => simp
    | cons label rest =>
      rw [List.eraseDups_cons, List.nodup_cons]
      refine ⟨by simp [List.mem_eraseDups], ?_⟩
      have shorter := List.length_filter_le (fun other => !other == label) rest
      exact ih _ (by rw [← size, List.length_cons]; omega) _ rfl

private theorem wording_injective : Function.Injective Label.wording := by
  intro first second same
  cases first <;> cases second <;> first | rfl | exact absurd same (by decide)

private theorem labelsOf_nonempty {rules : List Rule} (some : rules ≠ []) : labelsOf rules ≠ [] := by
  obtain ⟨rule, others, rfl⟩ := List.exists_cons_of_ne_nil some
  have known : rule ∈ Rule.all := by cases rule <;> decide
  have member : rule.label ∈ labelsOf (rule :: others) := by
    rw [labelsOf, List.mem_eraseDups]
    exact List.mem_map_of_mem (List.mem_filter.mpr ⟨known, by simp⟩)
  exact List.ne_nil_of_mem member

/-- Messages that stand in for one that says what was expected. -/
def FallsBack (message : String) : Prop :=
  "unexpected ".toList <+: message.toList ∨ message = "missing tag name" ∨ message = "empty parse result"

private theorem not_fallsBack {message : String} {front : List Char} (starts : front <+: message.toList)
    (apart : ∀ word ∈ ["unexpected ", "missing tag name", "empty parse result"],
      ¬ front <+: word.toList ∧ ¬ word.toList <+: front) : ¬ FallsBack message := by
  have away (word : String) (member : word ∈ ["unexpected ", "missing tag name", "empty parse result"]) :
      ¬ word.toList <+: message.toList := by
    intro other
    rcases List.prefix_or_prefix_of_prefix starts other with shorter | longer
    · exact (apart word member).1 shorter
    · exact (apart word member).2 longer
  rintro (unexpected | rfl | rfl)
  · exact away "unexpected " (by simp) unexpected
  · exact away "missing tag name" (by simp) (List.prefix_refl _)
  · exact away "empty parse result" (by simp) (List.prefix_refl _)

private theorem starts_with (word rest : String) {message : String} (same : message = word ++ rest) :
    word.toList <+: message.toList := by
  simp [same]

private theorem message_told {fault : Markup.Fault} (told : fault ≠ .expected []) : ¬ FallsBack fault.message := by
  cases fault with
  | expected labels =>
    cases labels with
    | nil => exact absurd rfl told
    | cons label rest => exact not_fallsBack (starts_with "expected " (joinLabels (label :: rest)) rfl) (by decide)
  | emptyScript =>
    exact not_fallsBack (starts_with "<script>" " needs a body and a closing </script> tag" (by decide)) (by decide)
  | duplicateAttribute name =>
    have message := @String.append_assoc "duplicate attribute `" name "`"
    exact not_fallsBack (starts_with "duplicate attribute `" (name ++ "`") message) (by decide)
  | scriptAttribute name =>
    have message := @String.append_assoc "unsupported attribute `" name "` on <script>"
    exact not_fallsBack (starts_with "unsupported attribute `" (name ++ "` on <script>") message) (by decide)
  | loopAttribute name =>
    have message := @String.append_assoc "unsupported attribute `" name "` on <each>"
    exact not_fallsBack (starts_with "unsupported attribute `" (name ++ "` on <each>") message) (by decide)
  | secondExpression =>
    exact not_fallsBack (starts_with "<each>" " takes a single `expression` attribute" (by decide)) (by decide)
  | missingExpression =>
    exact not_fallsBack (starts_with "<each>" " requires an `expression` attribute" (by decide)) (by decide)

/-- Nothing has been tracked yet. -/
def untracked (start : Cursor) : Tracker := ⟨start.left, [], []⟩

/-- The grammar matches a source from its start, and makes these pairs of it. -/
def Accepts (start : Cursor) (pairs : List Pair) : Prop :=
  ∃ next after, Run {} (.call .template) start (untracked start) (some (next, pairs)) after

/-- What is reported of a source that the grammar does not match: the labels of the rules that were tracked, at the
place where they were tracked, which is inside the source and not in front of the place where its nodes stopped. -/
structure Rejects (source : String) (start stop : Cursor) (tracker : Tracker) (fault : Markup.Fault) (line column : Nat) :
    Prop where
  rejected : Run {} (.call .template) start (untracked start) none tracker
  nodes : ∃ pairs between, Run {} (.many Grammar.node) start (untracked start) (some (stop, pairs)) between
  reported : Template.read source = .error (.markup fault line column)
  worded : fault.message = messageOf tracker
  expected : ∃ labels text, labels ≠ [] ∧ labels.Nodup ∧ listed labels = some text ∧ fault.message = "expected " ++ text
  placed : PositionBehind (source.toList.take (source.toList.length - tracker.left)) line column
  behind : tracker.left ≤ stop.left
  stopped : stop.left ≤ source.toList.length

private theorem expected_message {labels : List Label} (some : labels ≠ []) :
    (Markup.Fault.expected labels).message = "expected " ++ joinLabels labels := by
  cases labels with
  | nil => exact absurd rfl some
  | cons label rest => rfl

variable {source : String}

private theorem read_rejected (failed : Fails template { rest := source.toList }) :
    Template.read source = .error (Template.expectation source.toList (template { rest := source.toList }).trace) := by
  unfold Template.read
  simp only
  split
  next => rfl
  next pieces next scanned =>
    rw [Fails, scanned] at failed
    cases failed

private theorem rejected_reports (failed : Fails template { rest := source.toList }) :
    ∃ stop tracker fault line column, Rejects source { rest := source.toList } stop tracker fault line column := by
  obtain ⟨pieces, stop, reads, stopped, noted, behind⟩ := template_noted failed
  obtain ⟨_, run⟩ := template_follows { rest := source.toList } ⟨source.toList.length, []⟩
  obtain ⟨pairs, nodes⟩ := @forest_follows { rest := source.toList } (source.toList.length + 1) (Nat.lt_succ_self _)
    ⟨source.toList.length, []⟩
  have reported := read_rejected failed
  rw [Fails] at failed
  rw [Reads] at reads
  rw [failed] at run
  rw [reads] at nodes
  rw [Template.expectation] at reported
  dsimp only at noted behind
  generalize followAll ⟨source.toList.length, []⟩ (template { rest := source.toList }).trace = frontier
    at run reported noted behind
  have some := labelsOf_nonempty noted
  have message := expected_message some
  refine ⟨stop, _, _, _, _, run, ⟨pairs, _, nodes⟩, reported, ?_, ?_, positionBehind_after _, behind, stopped⟩
  · have positives : described (trackerOf frontier).positives = Option.some (joinLabels (labelsOf frontier.rules)) :=
      listed_join some
    have negatives : described (trackerOf frontier).negatives = none := rfl
    rw [messageOf, positives, negatives]
    exact message
  · exact ⟨(labelsOf frontier.rules).map Label.wording, joinLabels (labelsOf frontier.rules), by simpa using some,
      (nodup_eraseDups _).map wording_injective, listed_join some, message⟩

private theorem built_told {pieces : List Piece} {next : Cursor}
    (scanned : Reads template { rest := source.toList } pieces next) {fault : Markup.Fault} {line column : Nat}
    (failed : Template.read source = .error (.markup fault line column)) : ∀ labels, fault ≠ .expected labels := by
  rintro labels rfl
  obtain ⟨written, legible⟩ := reads_template.mp ⟨next, scanned⟩
  rw [Reads] at scanned
  simp only [Template.read, scanned] at failed
  rcases bind_error.mp failed with unread | ⟨_, _, done⟩
  · obtain ⟨tag, _, blames⟩ := @readPieces_blames source pieces [] [] _ (by simp [written]) legible unread
    cases blames with
    | ofAttribute blamed =>
      obtain ⟨_, _, _, _, _, offends, same, _⟩ := blamed
      cases offends <;> cases same
  · cases done

/-- A source that the grammar does not match is reported by what was expected, not in front of the place where its nodes
stopped; and no source falls back to a message that says less. -/
theorem grammar_faults_expected (source : String) :
    let start : Cursor := { rest := source.toList }
    ((∃ pairs, Accepts start pairs ∧ fallbacksOf pairs = []) ∨
      (∀ pairs, ¬ Accepts start pairs) ∧
        ∃ stop tracker fault line column, Rejects source start stop tracker fault line column) ∧
    ∀ fault line column, Template.read source = .error (.markup fault line column) → ¬ FallsBack fault.message := by
  intro start
  rcases reads_or_fails template start with failed | ⟨pieces, next, reads⟩
  · obtain ⟨stop, tracker, fault, line, column, rejects⟩ := rejected_reports failed
    refine ⟨.inr ⟨?_, stop, tracker, fault, line, column, rejects⟩, ?_⟩
    · rintro pairs ⟨next, after, accepted⟩
      cases (rejects.rejected.unique accepted).1
    · intro other line' column' reported
      cases rejects.reported.symm.trans reported
      obtain ⟨labels, text, _, _, _, message⟩ := rejects.expected
      rw [message]
      exact not_fallsBack (starts_with "expected " text rfl) (by decide)
  · obtain ⟨pairs, run⟩ := template_follows start ⟨source.toList.length, []⟩
    have found : (template start).found = some (pieces, next) := reads
    rw [found] at run
    refine ⟨.inl ⟨pairs, ⟨next, _, run⟩, run.fallbacks⟩, ?_⟩
    intro fault line column reported
    exact message_told (built_told reads reported [])

end Stencil.Proofs.GrammarFaults
