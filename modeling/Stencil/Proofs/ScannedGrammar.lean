import Stencil.Proofs.SilentScanners

/-! Scanners run the grammar. Every scanner goes over what the expression it stands for goes over, and the frontier of
its trace is the tracker of the run. The budget of a scanner is no limit, since every attribute and every node takes a
character. -/

namespace Stencil.Proofs.ScannedGrammar
open Markup Scanner ScannerReading GrammarRuns SilentScanners
open Expression (sequence choice)

variable {α β : Type} {scanner : Scanner α} {continued : α → Scanner β} {expression other : Expression}
  {cursor middle : Cursor}

/-- The tracker of a run in which everything that was noted was expected. -/
def trackerOf (frontier : Frontier) : Tracker := ⟨frontier.left, frontier.rules, []⟩

/-- A scanner goes as far as an expression, and its trace tells what was tracked. -/
def Follows (scanner : Scanner α) (expression : Expression) (cursor : Cursor) : Prop :=
  ∀ frontier, ∃ pairs, Run {} expression cursor (trackerOf frontier)
    ((scanner cursor).found.map fun found => (found.2, pairs)) (trackerOf (followAll frontier (scanner cursor).trace))

theorem followAll_append (frontier : Frontier) (first second : List Attempt) :
    followAll frontier (first ++ second) = followAll (followAll frontier first) second := by
  induction first generalizing frontier with
  | nil => rfl
  | cons attempt first ih => exact ih (attempt.follow frontier)

theorem Follows.farther {value : α} (follows : Follows scanner expression cursor)
    (reads : Reads scanner cursor value middle) : Farther cursor middle expression.advances := by
  obtain ⟨pairs, run⟩ := follows ⟨0, []⟩
  rw [show (scanner cursor).found = some (value, middle) from reads] at run
  exact run.farther

theorem follows_agreeing (agrees : Agrees scanner expression cursor) : Follows scanner expression cursor := by
  intro frontier
  have run := agrees.comes {} (trackerOf frontier)
  rw [Option.map_map] at run
  rw [agrees.silent]
  exact ⟨[], run⟩

private theorem follows_bind (first : Follows scanner expression cursor)
    (second : ∀ value middle, Reads scanner cursor value middle → Farther cursor middle expression.advances →
      Follows (continued value) other middle) :
    Follows (scanner >>= continued) (.both expression other) cursor := by
  intro frontier
  obtain ⟨pairs, run⟩ := first frontier
  rcases reads_or_fails scanner cursor with failed | ⟨value, middle, reads⟩
  · rw [bind_fails failed]
    rw [show (scanner cursor).found = none from failed] at run
    exact ⟨[], .bothFails run⟩
  · obtain ⟨more, later⟩ := second value middle reads (first.farther reads) (followAll frontier (scanner cursor).trace)
    rw [show (scanner cursor).found = some (value, middle) from reads] at run
    have outcome : (scanner >>= continued) cursor = ⟨(continued value middle).found,
        (scanner cursor).trace ++ (continued value middle).trace⟩ := by
      change andThen scanner continued cursor = _
      simp [andThen, show (scanner cursor).found = some (value, middle) from reads]
    have whole := Run.both run later
    rw [Option.map_map] at whole
    rw [outcome, followAll_append]
    exact ⟨pairs ++ more, whole⟩

private theorem follows_map {result : α → β} (follows : Follows scanner expression cursor) :
    Follows (scanner >>= fun value => pure (result value)) expression cursor := by
  intro frontier
  obtain ⟨pairs, run⟩ := follows frontier
  have outcome : (scanner >>= fun value => pure (result value)) cursor =
      ⟨(scanner cursor).found.map fun found => (result found.1, found.2), (scanner cursor).trace⟩ := by
    change andThen scanner _ cursor = _
    cases found : (scanner cursor).found with
    | none => simp [andThen, found]
    | some _ => simp [andThen, found, pure, succeed]
  rw [outcome]
  refine ⟨pairs, ?_⟩
  change Run {} expression cursor _ (Option.map _ (Option.map _ (scanner cursor).found)) _
  rw [Option.map_map]
  exact run

private theorem follows_firstOf {scanners : List (Scanner α)} {expressions : List Expression}
    (nonempty : expressions ≠ [])
    (each : List.Forall₂ (fun scanner expression => Follows scanner expression cursor) scanners expressions) :
    Follows (firstOf scanners) (choice expressions) cursor := by
  induction each with
  | nil => exact absurd rfl nonempty
  | @cons scanner expression scanners expressions follows each ih =>
    intro frontier
    obtain ⟨pairs, run⟩ := follows frontier
    cases found : (scanner cursor).found with
    | none =>
      rw [found] at run
      have outcome : firstOf (scanner :: scanners) cursor = ⟨(firstOf scanners cursor).found,
          (scanner cursor).trace ++ (firstOf scanners cursor).trace⟩ := by
        simp [firstOf, orElse, found]
      rw [outcome, followAll_append]
      cases each with
      | nil => exact ⟨pairs, run⟩
      | cons first others =>
        obtain ⟨more, later⟩ := ih (by simp) (followAll frontier (scanner cursor).trace)
        exact ⟨more, .eitherSecond run later⟩
    | some value =>
      have outcome : firstOf (scanner :: scanners) cursor = scanner cursor := by
        simp [firstOf, orElse, found]
      rw [found] at run
      rw [outcome, found]
      refine ⟨pairs, ?_⟩
      cases each with
      | nil => exact run
      | cons first others => exact .eitherFirst run

private theorem follows_maybe (follows : Follows scanner expression cursor) :
    Follows (maybe scanner) (.optional expression) cursor := by
  intro frontier
  obtain ⟨pairs, run⟩ := follows frontier
  cases found : (scanner cursor).found with
  | none =>
    rw [found] at run
    have outcome : maybe scanner cursor = ⟨some (none, cursor), (scanner cursor).trace⟩ := by simp [maybe, found]
    rw [outcome]
    exact ⟨[], .optional run⟩
  | some value =>
    rw [found] at run
    have outcome : maybe scanner cursor = ⟨some (some value.1, value.2), (scanner cursor).trace⟩ := by
      simp [maybe, found]
    rw [outcome]
    exact ⟨pairs, .optional run⟩

/-- The frontier takes note of a rule as the tracker does. -/
private theorem trackerOf_record (after entered : Frontier) (rule : Rule) (left : Nat) :
    trackerOf (after.record rule left (entered.countAt left)) =
      (trackerOf after).track (trackerOf entered) {} rule left := by
  have noted : (trackerOf after).track (trackerOf entered) {} rule left =
      if after.countAt left = entered.countAt left + 1 then trackerOf after
      else
        let tracker := (trackerOf after).rewound (trackerOf entered) left
        if left = tracker.left then { tracker with positives := tracker.positives ++ [rule] } else tracker := rfl
  have rewound : (trackerOf after).rewound (trackerOf entered) left =
      if left = after.left then ⟨left, after.rules.take (entered.countAt left), []⟩
      else if left < after.left then ⟨left, [], []⟩
      else trackerOf after := by
    by_cases same : left = after.left
    · subst same
      rw [if_pos rfl, Tracker.rewound, if_pos (show after.left = (trackerOf after).left from rfl), Frontier.countAt]
      by_cases known : after.left = entered.left
      · rw [if_pos known, if_pos (show after.left = (trackerOf entered).left from known)]
        rfl
      · rw [if_neg known, if_neg (show ¬ after.left = (trackerOf entered).left from known)]
        rfl
    · rw [if_neg same, Tracker.rewound, if_neg (show ¬ left = (trackerOf after).left from same)]
      rfl
  rw [noted, rewound, Frontier.record]
  by_cases single : after.countAt left = entered.countAt left + 1
  · rw [if_pos single, if_pos single]
  · rw [if_neg single, if_neg single]
    rcases Nat.lt_trichotomy left after.left with nearer | same | farther
    · rw [if_pos nearer, if_neg (Nat.ne_of_lt nearer), if_pos nearer]
      exact (if_pos rfl).symm
    · rw [if_neg (Nat.not_lt.mpr (Nat.le_of_eq same.symm)), if_pos same, if_pos same]
      exact (if_pos rfl).symm
    · have behind : ¬ left < after.left := Nat.not_lt.mpr (Nat.le_of_lt farther)
      rw [if_neg behind, if_neg (Nat.ne_of_gt farther), if_neg (Nat.ne_of_gt farther), if_neg behind]
      exact (if_neg (Nat.ne_of_gt farther)).symm

private theorem trackerOf_follow (frontier : Frontier) (rule : Rule) (left : Nat) (matched : Bool) (inner : List Attempt) :
    trackerOf (followAll frontier [.run rule left matched inner]) =
      (trackerOf (followAll frontier inner)).ended (trackerOf frontier) {} rule left matched := by
  cases matched with
  | true => rfl
  | false => exact trackerOf_record _ _ _ _

private theorem follows_call {rule : Rule} {frontier : Frontier} {pairs : List Pair}
    (run : Run { atomic := Grammar.isAtomic rule } (Grammar.body rule) cursor (trackerOf frontier)
      ((scanner cursor).found.map fun found => (found.2, pairs)) (trackerOf (followAll frontier (scanner cursor).trace))) :
    ∃ pairs, Run {} (.call rule) cursor (trackerOf frontier)
      ((named rule scanner cursor).found.map fun found => (found.2, pairs))
      (trackerOf (followAll frontier (named rule scanner cursor).trace)) := by
  have called := @Run.call {} rule cursor (trackerOf frontier) _ _ run
  rw [Option.isSome_map, ← trackerOf_follow] at called
  cases found : (scanner cursor).found with
  | none =>
    have outcome : named rule scanner cursor = ⟨none, [.run rule cursor.left false (scanner cursor).trace]⟩ := by
      simp [named, found]
    rw [found] at called
    rw [outcome]
    exact ⟨[], called⟩
  | some value =>
    have outcome : named rule scanner cursor = ⟨some value, [.run rule cursor.left true (scanner cursor).trace]⟩ := by
      simp [named, found]
    rw [found] at called
    rw [outcome]
    exact ⟨_, called⟩

private theorem follows_named {rule : Rule} (loose : Grammar.isAtomic rule = false)
    (follows : Follows scanner (Grammar.body rule) cursor) : Follows (named rule scanner) (.call rule) cursor := by
  intro frontier
  obtain ⟨pairs, run⟩ := follows frontier
  refine @follows_call _ _ _ _ _ pairs ?_
  rw [loose]
  exact run

/-- A rule without rules in it may be atomic. -/
private theorem follows_silent {rule : Rule} (agrees : Agrees scanner (Grammar.body rule) cursor) :
    Follows (named rule scanner) (.call rule) cursor := by
  intro frontier
  have run := agrees.comes { atomic := Grammar.isAtomic rule } (trackerOf frontier)
  rw [Option.map_map] at run
  refine @follows_call _ _ _ _ _ [] ?_
  rw [agrees.silent]
  exact run

private theorem follows_push {next : List Char → Scanner β} {reader : Scanner (List Char)}
    (first : Follows reader expression cursor)
    (crosses : ∀ tag middle, Reads reader cursor tag middle → Crosses cursor tag middle)
    (second : ∀ tag middle, Reads reader cursor tag middle → Farther cursor middle expression.advances →
      Follows (next tag) other { middle with opened := tag :: middle.opened }) :
    Follows (do let tag ← reader; pushTag tag; next tag) (.both (.push expression) other) cursor := by
  intro frontier
  obtain ⟨pairs, run⟩ := first frontier
  rcases reads_or_fails reader cursor with failed | ⟨tag, middle, reads⟩
  · rw [bind_fails failed]
    rw [show (reader cursor).found = none from failed] at run
    exact ⟨[], .bothFails (.push run)⟩
  · have found : (reader cursor).found = some (tag, middle) := reads
    obtain ⟨more, later⟩ := second tag middle reads (first.farther reads) (followAll frontier (reader cursor).trace)
    have outcome : (do let tag ← reader; pushTag tag; next tag) cursor =
        ⟨(next tag { middle with opened := tag :: middle.opened }).found,
          (reader cursor).trace ++ (next tag { middle with opened := tag :: middle.opened }).trace⟩ := by
      change andThen reader (fun tag => do pushTag tag; next tag) cursor = _
      rw [andThen, found]
      simp only [Attempt.sequence_eq]
      rw [bind_silent rfl]
    have same : taken cursor middle = tag := by
      have rest := (crosses tag middle reads).rest
      rw [taken, cursor.left_eq, middle.left_eq, rest, List.length_append, Nat.add_sub_cancel, List.take_left]
    rw [found] at run
    have pushed := Run.push run
    simp only [Option.map_some, same] at pushed
    have whole := Run.both pushed later
    rw [Option.map_map] at whole
    rw [outcome, followAll_append]
    exact ⟨pairs ++ more, whole⟩

/-- As many as there are. -/
private theorem follows_many {again : Scanner (List α)} {next : Option α → Scanner (List α)} (stops : next none = pure [])
    (goesOn : ∀ value, next (some value) = again >>= fun rest => pure (value :: rest))
    (first : Follows scanner expression cursor)
    (later : ∀ value middle, Reads scanner cursor value middle → Farther cursor middle expression.advances →
      Follows again (.many expression) middle) :
    Follows (maybe scanner >>= next) (.many expression) cursor := by
  intro frontier
  obtain ⟨pairs, run⟩ := first frontier
  rcases reads_or_fails scanner cursor with failed | ⟨value, middle, reads⟩
  · have found : (scanner cursor).found = none := failed
    have outcome : (maybe scanner >>= next) cursor = ⟨some ([], cursor), (scanner cursor).trace⟩ := by
      change andThen (maybe scanner) next cursor = _
      simp [andThen, maybe, found, stops, pure, succeed]
    rw [found] at run
    rw [outcome]
    exact ⟨[], .manyStops run⟩
  · have found : (scanner cursor).found = some (value, middle) := reads
    obtain ⟨more, rest⟩ := later value middle reads (first.farther reads) (followAll frontier (scanner cursor).trace)
    obtain ⟨_, reached⟩ := Option.isSome_iff_exists.mp rest.many_found
    obtain ⟨last, foundLater, rfl⟩ := Option.map_eq_some_iff.mp reached
    have continued : next (some value) middle = ⟨some (value :: last.1, last.2), (again middle).trace⟩ := by
      rw [goesOn]
      change andThen again _ middle = _
      simp [andThen, foundLater, pure, succeed]
    have outcome : (maybe scanner >>= next) cursor =
        ⟨some (value :: last.1, last.2), (scanner cursor).trace ++ (again middle).trace⟩ := by
      change andThen (maybe scanner) next cursor = _
      simp [andThen, maybe, found, continued]
    rw [found] at run
    rw [foundLater] at rest
    rw [outcome, followAll_append]
    exact ⟨pairs ++ more, .many run rest⟩

private theorem follows_exactly {word : String} {chars : List Char} (same : word.toList = chars) (cursor : Cursor) :
    Follows (exactly chars) (.text word) cursor := same ▸ follows_agreeing (agrees_exactly word cursor)

private theorem follows_gap (cursor : Cursor) : Follows gap (.many Grammar.gapChar) cursor :=
  follows_agreeing (agrees_gap cursor)

private theorem doubleQuoted_follows (cursor : Cursor) :
    Follows doubleQuoted (sequence [.text "\"", .call .doubleQuotedValue, .text "\""]) cursor :=
  follows_bind (follows_exactly rfl _) fun _ _ _ _ =>
    follows_bind (follows_silent (agrees_takeUntil (quote_shown rfl).upTo _)) fun _ _ _ _ =>
      follows_map (follows_exactly rfl _)

private theorem singleQuoted_follows (cursor : Cursor) :
    Follows singleQuoted (sequence [.text "'", .call .singleQuotedValue, .text "'"]) cursor :=
  follows_bind (follows_exactly rfl _) fun _ _ _ _ =>
    follows_bind (follows_silent (agrees_takeUntil (quote_shown rfl).upTo _)) fun _ _ _ _ =>
      follows_map (follows_exactly rfl _)

private theorem bare_follows (cursor : Cursor) : Follows bare (.call .bareValue) cursor :=
  follows_map (follows_silent (agrees_takeSomeUntil bareEnd_shown.upTo _))

private theorem value_follows (cursor : Cursor) :
    Follows value (sequence [.many Grammar.gapChar, .text "=", .many Grammar.gapChar, Grammar.attributeValue]) cursor :=
  follows_bind (follows_gap _) fun _ _ _ _ =>
    follows_bind (follows_exactly rfl _) fun _ _ _ _ =>
      follows_bind (follows_gap _) fun _ _ _ _ =>
        follows_map (follows_firstOf (by simp)
          (.cons (doubleQuoted_follows _) (.cons (singleQuoted_follows _) (.cons (bare_follows _) .nil))))

theorem nameAndValue_follows (cursor : Cursor) : Follows nameAndValue (.call .attribute) cursor :=
  follows_named rfl (follows_bind (follows_silent (agrees_takeSomeUntil attributeNameEnd_shown.upTo _)) fun _ _ _ _ =>
    follows_map (follows_maybe (value_follows _)))

/-- An attribute with the blanks in front of it. -/
def spacedAttribute : Expression := .both (Expression.some Grammar.gapChar) (.call .attribute)

theorem field_follows (cursor : Cursor) : Follows field spacedAttribute cursor :=
  follows_bind (follows_agreeing (agrees_takeSomeUntil gapChar_reads.upTo _)) fun _ _ _ _ =>
    follows_map (nameAndValue_follows _)

private theorem fields_follow {budget : Nat} (enough : cursor.left ≤ budget) :
    Follows (fields budget) (.many spacedAttribute) cursor := by
  induction budget generalizing cursor with
  | zero =>
    have none : cursor.rest = [] := by
      rw [cursor.left_eq] at enough
      exact List.length_eq_zero_iff.mp (Nat.le_zero.mp enough)
    have blank := gapChar_reads.upTo.some cursor
    rw [none] at blank
    intro frontier
    exact ⟨[], .manyStops (.bothFails (blank {} (trackerOf frontier)))⟩
  | succ budget ih =>
    refine follows_many rfl (fun _ => rfl) (field_follows cursor) ?_
    intro _ middle _ farther
    have nearer := farther.2 rfl
    exact ih (by omega)

theorem attributes_follow {budget : Nat} (tag : List Char) (enough : cursor.left ≤ budget) :
    Follows (attributes budget tag) Grammar.attributes cursor :=
  follows_bind (fields_follow enough) fun _ _ _ _ => follows_map (follows_gap _)

theorem comment_follows (cursor : Cursor) : Follows comment Grammar.comment cursor :=
  follows_bind (follows_exactly rfl _) fun _ _ _ _ =>
    follows_bind (follows_agreeing (agrees_takeUntil (shows_text "-->").upTo _)) fun _ _ _ _ =>
      follows_map (follows_exactly rfl _)

theorem text_follows (cursor : Cursor) : Follows Markup.text (.call .text) cursor :=
  follows_map (follows_silent (agrees_takeSomeUntil startsTag_shown.upTo _))

theorem scriptTag_follows (cursor : Cursor) : Follows scriptTag Grammar.scriptTag cursor :=
  follows_agreeing (agrees_nameWhere (scriptTag_read cursor))

theorem emptyScript_follows {budget : Nat} (enough : cursor.left ≤ budget) :
    Follows (emptyScript (attributes budget)) (.call .emptyScript) cursor :=
  follows_named rfl (follows_bind (follows_exactly rfl _) fun _ _ _ less =>
    follows_bind (scriptTag_follows _) fun _ _ _ named =>
      follows_bind (attributes_follow _ (named.1.trans (less.1.trans enough))) fun _ _ _ _ =>
        follows_map (follows_exactly rfl _))

theorem script_follows {budget : Nat} (enough : cursor.left ≤ budget) :
    Follows (script (attributes budget)) (.call .script) cursor :=
  follows_named rfl (follows_bind (follows_exactly rfl _) fun _ _ _ less =>
    follows_bind (scriptTag_follows _) fun _ _ _ named =>
      follows_bind (attributes_follow _ (named.1.trans (less.1.trans enough))) fun _ _ _ _ =>
        follows_bind (follows_exactly rfl _) fun _ _ _ _ =>
          follows_bind (follows_silent (agrees_takeUntil closesScript_shown.upTo _)) fun _ _ _ _ =>
            follows_bind (follows_exactly rfl _) fun _ _ _ _ =>
              follows_bind (follows_agreeing (agrees_closingScriptName _)) fun _ _ _ _ =>
                follows_bind (follows_gap _) fun _ _ _ _ => follows_map (follows_exactly rfl _))

private theorem closing_follows (cursor : Cursor) : Follows closing Grammar.closing cursor :=
  follows_bind (follows_exactly rfl _) fun _ _ _ _ =>
    follows_bind (follows_agreeing (agrees_popTag _)) fun _ _ _ _ =>
      follows_bind (follows_gap _) fun _ _ _ _ => follows_map (follows_exactly rfl _)

private theorem needlessClosing_follows (cursor : Cursor) :
    Follows needlessClosing (.both (.many Grammar.gapChar) Grammar.closing) cursor :=
  follows_bind (follows_gap _) fun _ _ _ _ => follows_map (closing_follows _)

theorem voidTag_follows (cursor : Cursor) : Follows voidTag (.call .voidTag) cursor :=
  follows_silent (agrees_nameWhere (voidTag_read cursor))

theorem voidElement_follows {budget : Nat} (enough : cursor.left ≤ budget) :
    Follows (voidElement (attributes budget)) (.call .voidElement) cursor :=
  follows_named rfl (follows_bind (follows_exactly rfl _) fun _ _ _ less =>
    follows_push (voidTag_follows _)
      (fun _ _ reads => (MarkupReading.reads_nameWhere.mp (reads_named.mp reads)).1) fun _ _ _ named =>
        follows_bind (attributes_follow _ (named.1.trans (less.1.trans enough))) fun _ _ _ _ =>
          follows_bind (follows_maybe (follows_exactly rfl _)) fun _ _ _ _ =>
            follows_bind (follows_exactly rfl _) fun _ _ _ _ =>
              follows_map (follows_firstOf (by simp)
                (.cons (needlessClosing_follows _) (.cons (follows_map (follows_agreeing (agrees_dropTag _))) .nil))))

theorem tagName_follows (cursor : Cursor) : Follows tagName (.call .tagName) cursor :=
  follows_silent (agrees_nameWhere (tagName_read cursor))

theorem selfClosing_follows {budget : Nat} (enough : cursor.left ≤ budget) :
    Follows (selfClosing (attributes budget)) (.call .selfClosing) cursor :=
  follows_named rfl (follows_bind (follows_exactly rfl _) fun _ _ _ less =>
    follows_bind (follows_agreeing (agrees_notScript _)) fun _ _ _ same =>
      follows_bind (tagName_follows _) fun _ _ _ named =>
        follows_bind (attributes_follow _ (named.1.trans (same.1.trans (less.1.trans enough)))) fun _ _ _ _ =>
          follows_map (follows_exactly rfl _))

theorem element_follows {budget : Nat} {children : Scanner (List Piece)} (enough : cursor.left ≤ budget)
    (inside : ∀ middle, middle.left < cursor.left → Follows children (.many Grammar.node) middle) :
    Follows (element (attributes budget) children) (.call .element) cursor :=
  follows_named rfl (follows_bind (follows_exactly rfl _) fun _ _ _ less =>
    follows_bind (follows_agreeing (agrees_notScript _)) fun _ _ _ same =>
      follows_push (tagName_follows _)
        (fun _ _ reads => (MarkupReading.reads_nameWhere.mp (reads_named.mp reads)).1) fun _ _ _ named =>
          follows_bind (attributes_follow _ (named.1.trans (same.1.trans (less.1.trans enough)))) fun _ _ _ opened =>
            follows_bind (follows_exactly rfl _) fun _ _ _ closed =>
              follows_bind (inside _ (closed.1.trans_lt (opened.1.trans_lt (named.1.trans_lt (same.1.trans_lt (less.2 rfl))))))
                fun _ _ _ _ => follows_map (closing_follows _))

theorem piece_follows {budget : Nat} {children : Scanner (List Piece)} (enough : cursor.left ≤ budget)
    (inside : ∀ middle, middle.left < cursor.left → Follows children (.many Grammar.node) middle) :
    Follows (piece (attributes budget) children) Grammar.node cursor :=
  follows_firstOf (by simp) (.cons (comment_follows _) (.cons (emptyScript_follows enough) (.cons (script_follows enough)
    (.cons (voidElement_follows enough) (.cons (selfClosing_follows enough) (.cons (element_follows enough inside)
      (.cons (text_follows _) .nil)))))))

theorem forest_follows {budget : Nat} (enough : cursor.left < budget) :
    Follows (forest budget) (.many Grammar.node) cursor := by
  induction budget generalizing cursor with
  | zero => omega
  | succ budget ih =>
    have first : Follows (piece (attributes budget) (forest budget)) Grammar.node cursor :=
      piece_follows (by omega) fun middle nearer => ih (by omega)
    refine follows_many rfl (fun _ => rfl) first ?_
    intro _ middle _ farther
    have nearer := farther.2 rfl
    exact ih (by omega)

private theorem agrees_finish (cursor : Cursor) :
    Agrees (do require (← lookAhead).isEmpty) (.terminal .finish) cursor := by
  have outcome : (do require (← lookAhead).isEmpty) cursor = require cursor.rest.isEmpty cursor := bind_silent rfl
  apply agrees_found _ (comes_terminal .finish cursor)
  · exact ()
  · rw [outcome]
    cases cursor.rest.isEmpty <;> rfl

theorem endOfInput_follows (cursor : Cursor) : Follows endOfInput (.call .endOfInput) cursor :=
  follows_silent (agrees_finish cursor)

/-- A whole source is read as the grammar has it. -/
theorem template_follows (cursor : Cursor) : Follows template (.call .template) cursor := by
  apply follows_named rfl
  have outcome : (do
      let pieces ← forest ((← lookAhead).length + 1)
      endOfInput
      return pieces) cursor = (do
      let pieces ← forest (cursor.rest.length + 1)
      endOfInput
      return pieces) cursor := bind_silent rfl
  have follows : Follows (do
      let pieces ← forest (cursor.rest.length + 1)
      endOfInput
      return pieces) (Grammar.body .template) cursor :=
    follows_bind (forest_follows (by rw [cursor.left_eq]; omega)) fun _ _ _ _ => follows_map (endOfInput_follows _)
  unfold Follows
  rw [outcome]
  exact follows

end Stencil.Proofs.ScannedGrammar
