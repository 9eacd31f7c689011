import Stencil.Proofs.GrammarRuns
import Stencil.Proofs.MarkupReading

/-! Scanners that note nothing. They stand for expressions that no rules are called in, so nothing is tracked while
these are run: a run of them is the same in every scope and leaves the tracker as it was. -/

namespace Stencil.Proofs.SilentScanners
open Markup Scanner ScannerReading GrammarRuns
open Expression (anyCase member choice charWithout)

/-- What an expression comes to, wherever it is run and whatever has been tracked. -/
def Comes (expression : Expression) (cursor : Cursor) (next : Option Cursor) : Prop :=
  ∀ scope tracker, Run scope expression cursor tracker (next.map (·, [])) tracker

variable {expression other : Expression} {cursor middle : Cursor} {next : Option Cursor}

theorem comes_terminal (terminal : Terminal) (cursor : Cursor) :
    Comes (.terminal terminal) cursor (terminal.read cursor) := fun _ _ => .terminal terminal

private theorem comes_both (first : Comes expression cursor (some middle)) (second : Comes other middle next) :
    Comes (.both expression other) cursor next := by
  intro scope tracker
  have run := Run.both (first scope tracker) (second scope tracker)
  cases next <;> exact run

private theorem comes_both_fails (first : Comes expression cursor none) : Comes (.both expression other) cursor none :=
  fun scope tracker => .bothFails (first scope tracker)

private theorem comes_either (first : Comes expression cursor next) {second : Option Cursor}
    (alternative : Comes other cursor second) : Comes (.either expression other) cursor (next.or second) := by
  intro scope tracker
  cases next with
  | none => exact .eitherSecond (first scope tracker) (alternative scope tracker)
  | some next => exact .eitherFirst (first scope tracker)

private theorem comes_without (inner : Comes expression cursor next) :
    Comes (.without expression) cursor (if next.isSome then none else some cursor) := by
  intro scope tracker
  have run := @Run.without scope _ _ _ _ _ (inner _ tracker)
  cases next <;> exact run

private theorem comes_many_stops (last : Comes expression cursor none) : Comes (.many expression) cursor (some cursor) :=
  fun scope tracker => .manyStops (last scope tracker)

private theorem comes_many (first : Comes expression cursor (some middle)) {last : Cursor}
    (later : Comes (.many expression) middle (some last)) : Comes (.many expression) cursor (some last) :=
  fun scope tracker => .many (first scope tracker) (later scope tracker)

private theorem skip_zero (cursor : Cursor) : cursor.skip 0 = cursor := cursor_ext rfl rfl

private theorem skip_skip (cursor : Cursor) (first second : Nat) :
    (cursor.skip first).skip second = cursor.skip (first + second) := by
  apply cursor_ext
  · simp [Cursor.skip]
  · rfl

/-- The expression reads one character of a class. -/
def ReadsOne (expression : Expression) (isMember : Char → Bool) : Prop :=
  ∀ cursor, Comes expression cursor (if cursor.rest.head?.any isMember then some (cursor.skip 1) else none)

private theorem readsOne_member (isMember : Char → Bool) : ReadsOne (member isMember) isMember :=
  fun cursor => comes_terminal (.member isMember) cursor

private theorem readsOne_text {word : String} {c : Char} (single : word.toList = [c]) :
    ReadsOne (.text word) (fun d => d = c) := by
  intro cursor
  have read := comes_terminal (.text [c]) cursor
  have same : List.isPrefixOf [c] cursor.rest = cursor.rest.head?.any fun d => decide (d = c) := by
    cases cursor.rest with
    | nil => rfl
    | cons d rest => simp [List.isPrefixOf, Bool.beq_eq_decide_eq, eq_comm]
  rw [Terminal.read, same] at read
  rwa [Expression.text, single]

private theorem readsOne_either {one two : Char → Bool} (first : ReadsOne expression one) (second : ReadsOne other two) :
    ReadsOne (.either expression other) (fun c => one c || two c) := by
  intro cursor
  have read := comes_either (first cursor) (second cursor)
  cases head : cursor.rest.head? with
  | none => simpa [head] using read
  | some c =>
    rw [head] at read
    cases isFirst : one c with
    | true => simpa [isFirst] using read
    | false => simpa [isFirst] using read

theorem gapChar_reads : ReadsOne Grammar.gapChar isGap := by
  have reads := readsOne_either (readsOne_text (show " ".toList = [' '] from rfl))
    (readsOne_either (readsOne_text (show "\t".toList = ['\t'] from rfl))
      (readsOne_either (readsOne_text (show "\r".toList = ['\r'] from rfl))
        (readsOne_text (show "\n".toList = ['\n'] from rfl))))
  have same : isGap = fun c => decide (c = ' ') || (decide (c = '\t') || (decide (c = '\r') || decide (c = '\n'))) := by
    funext c
    simp [isGap, Bool.or_assoc]
  rw [same]
  exact reads

private theorem nameChar_reads : ReadsOne Grammar.nameChar isNameChar := by
  have reads := readsOne_either (readsOne_member Char.isAlphanum)
    (readsOne_either (readsOne_text (show "-".toList = ['-'] from rfl))
      (readsOne_either (readsOne_text (show "_".toList = ['_'] from rfl))
        (readsOne_either (readsOne_text (show ":".toList = [':'] from rfl))
          (readsOne_text (show ".".toList = ['.'] from rfl)))))
  have same : isNameChar = fun c =>
      c.isAlphanum || (decide (c = '-') || (decide (c = '_') || (decide (c = ':') || decide (c = '.')))) := by
    funext c
    simp [isNameChar, Bool.or_assoc]
  rw [same]
  exact reads

/-- The expression matches in front of some texts, and it does not matter here how far. -/
def Shows (expression : Expression) (starts : List Char → Bool) : Prop :=
  ∀ cursor, ∃ next, Comes expression cursor next ∧ next.isSome = starts cursor.rest

private theorem isSome_found (condition : Bool) (cursor : Cursor) :
    (if condition = true then some cursor else none).isSome = condition := by
  cases condition <;> rfl

private theorem ReadsOne.shows {isMember : Char → Bool} (reads : ReadsOne expression isMember) :
    Shows expression (fun rest => rest.head?.any isMember) := by
  intro cursor
  exact ⟨_, reads cursor, isSome_found _ _⟩

theorem shows_text (word : String) : Shows (.text word) (fun rest => word.toList.isPrefixOf rest) := by
  intro cursor
  exact ⟨_, comes_terminal (.text word.toList) cursor, isSome_found _ _⟩

private theorem shows_either {one two : List Char → Bool} (first : Shows expression one) (second : Shows other two) :
    Shows (.either expression other) (fun rest => one rest || two rest) := by
  intro cursor
  obtain ⟨next, comes, some⟩ := first cursor
  obtain ⟨next', comes', some'⟩ := second cursor
  refine ⟨_, comes_either comes comes', ?_⟩
  rw [Option.isSome_or, some, some']

/-- The expression reads a character, except where something stops it. -/
def ReadsUpTo (expression : Expression) (stop : List Char → Bool) : Prop :=
  ∀ cursor, Comes expression cursor (if cursor.rest.isEmpty || stop cursor.rest then none else some (cursor.skip 1))

theorem ReadsOne.upTo {isMember : Char → Bool} (reads : ReadsOne expression isMember) :
    ReadsUpTo expression (fun rest => !(rest.head?.any isMember)) := by
  intro cursor
  have comes := reads cursor
  cases split : cursor.rest with
  | nil => simpa [split] using comes
  | cons c rest =>
    rw [split] at comes
    cases isIn : isMember c with
    | true => simpa [isIn] using comes
    | false => simpa [isIn] using comes

theorem Shows.upTo {stop : List Char → Bool} (shows : Shows expression stop) :
    ReadsUpTo (charWithout expression) stop := by
  intro cursor
  obtain ⟨next, comes, some⟩ := shows cursor
  have ahead := comes_without comes
  rw [some] at ahead
  cases stops : stop cursor.rest with
  | true =>
    rw [stops] at ahead
    rw [Bool.or_true]
    exact comes_both_fails ahead
  | false =>
    rw [stops] at ahead
    have read := comes_both ahead (readsOne_member (fun _ => true) cursor)
    cases split : cursor.rest with
    | nil =>
      rw [split] at read
      exact read
    | cons c rest =>
      rw [split] at read
      exact read

private theorem ReadsUpTo.many {stop : List Char → Bool} (reads : ReadsUpTo expression stop) (cursor : Cursor) :
    Comes (.many expression) cursor (some (cursor.skip (untilStop stop cursor.rest).length)) := by
  generalize length : cursor.rest = rest
  induction rest generalizing cursor with
  | nil =>
    have last := reads cursor
    rw [length] at last
    rw [untilStop, List.length_nil, skip_zero]
    exact comes_many_stops last
  | cons c rest ih =>
    have first := reads cursor
    rw [length] at first
    rw [untilStop]
    cases stops : stop (c :: rest) with
    | true =>
      rw [stops] at first
      rw [if_pos rfl, List.length_nil, skip_zero]
      exact comes_many_stops first
    | false =>
      rw [stops] at first
      have later := ih (cursor.skip 1) (by simp [Cursor.skip, length])
      rw [skip_skip, Nat.add_comm 1] at later
      exact comes_many first later

theorem ReadsUpTo.some {stop : List Char → Bool} (reads : ReadsUpTo expression stop) (cursor : Cursor) :
    Comes (Expression.some expression) cursor (if (untilStop stop cursor.rest).isEmpty then none
      else Option.some (cursor.skip (untilStop stop cursor.rest).length)) := by
  have first := reads cursor
  cases split : cursor.rest with
  | nil =>
    rw [split] at first
    exact comes_both_fails first
  | cons c rest =>
    rw [split] at first
    rw [untilStop]
    cases stops : stop (c :: rest) with
    | true =>
      rw [stops] at first
      exact comes_both_fails first
    | false =>
      rw [stops] at first
      have later := reads.many (cursor.skip 1)
      rw [skip_skip, Nat.add_comm 1, show (cursor.skip 1).rest = rest by simp [Cursor.skip, split]] at later
      exact comes_both first later

private theorem shows_behind (word : String) {starts : List Char → Bool} (shows : Shows expression starts) :
    Shows (.both (.text word) expression) fun rest =>
      word.toList.isPrefixOf rest && starts (rest.drop word.toList.length) := by
  intro cursor
  have first := comes_terminal (.text word.toList) cursor
  rw [Terminal.read] at first
  cases written : word.toList.isPrefixOf cursor.rest with
  | false =>
    rw [written, if_neg (by simp)] at first
    exact ⟨none, comes_both_fails first, by simp [written]⟩
  | true =>
    rw [written, if_pos rfl] at first
    obtain ⟨next, later, some⟩ := shows (cursor.skip word.toList.length)
    exact ⟨next, comes_both first later, by simp [some, written, Cursor.skip]⟩

private theorem Shows.congr {one two : List Char → Bool} (shows : Shows expression one)
    (same : ∀ rest, one rest = two rest) : Shows expression two := by
  intro cursor
  obtain ⟨next, comes, some⟩ := shows cursor
  exact ⟨next, comes, some.trans (same _)⟩

theorem startsTag_shown :
    Shows (.both (.text "<") (choice [member Char.isAlpha, .text "/", .text "!"])) startsTag := by
  have char := readsOne_either (readsOne_member Char.isAlpha)
    (readsOne_either (readsOne_text (show "/".toList = ['/'] from rfl)) (readsOne_text (show "!".toList = ['!'] from rfl)))
  apply (shows_behind "<" char.shows).congr
  intro rest
  match rest with
  | [] => rfl
  | [c] => by_cases less : c = '<' <;> simp [startsTag, less]
  | c :: d :: rest =>
    by_cases less : c = '<'
    · simp [startsTag, less, Bool.or_assoc]
    · simp [startsTag, less, Ne.symm less]

private theorem shows_anyCase (word : List Char) :
    Shows (anyCase word) fun rest => decide (lowerCase (rest.take word.length) = word) := by
  intro cursor
  refine ⟨_, comes_terminal (.anyCase word) cursor, ?_⟩
  rw [Terminal.read]
  split
  next same => exact (decide_eq_true same).symm
  next other => exact (decide_eq_false other).symm

theorem closesScript_shown : Shows (.both (.text "</") (anyCase scriptName)) closesScript := by
  apply (shows_behind "</" (shows_anyCase scriptName)).congr
  intro rest
  match rest with
  | [] => rfl
  | [c] => simp [closesScript]
  | c :: d :: rest =>
    by_cases starts : c = '<' ∧ d = '/'
    · obtain ⟨rfl, rfl⟩ := starts
      rfl
    · have no : closesScript (c :: d :: rest) = false := by
        unfold closesScript
        split
        next same => simp_all
        next => rfl
      rw [no]
      rw [not_and] at starts
      by_cases less : c = '<'
      · simp [less, Ne.symm (starts less)]
      · simp [Ne.symm less]

theorem quote_shown {word : String} {c : Char} (single : word.toList = [c]) : Shows (.text word) (startsWith c) := by
  apply (readsOne_text single).shows.congr
  intro rest
  cases rest with
  | nil => rfl
  | cons d rest => simp [startsWith]

theorem attributeNameEnd_shown :
    Shows (choice [Grammar.gapChar, .text "=", .text ">", .text "/", .text "\"", .text "'", .text "<"])
      fun rest => rest.head?.any endsAttributeName := by
  have reads := readsOne_either gapChar_reads (readsOne_either (readsOne_text (show "=".toList = ['='] from rfl))
    (readsOne_either (readsOne_text (show ">".toList = ['>'] from rfl))
      (readsOne_either (readsOne_text (show "/".toList = ['/'] from rfl))
        (readsOne_either (readsOne_text (show "\"".toList = ['"'] from rfl))
          (readsOne_either (readsOne_text (show "'".toList = ['\''] from rfl))
            (readsOne_text (show "<".toList = ['<'] from rfl)))))))
  apply reads.shows.congr
  intro rest
  cases rest with
  | nil => rfl
  | cons c rest => simp [endsAttributeName, isQuoteMark, Bool.or_assoc]

theorem bareEnd_shown :
    Shows (choice [Grammar.gapChar, .text ">", .text "/>", .text "\"", .text "'", .text "=", .text "<", .text "\x60"])
      stopsBareValue := by
  have tail := readsOne_either (readsOne_text (show "\"".toList = ['"'] from rfl))
    (readsOne_either (readsOne_text (show "'".toList = ['\''] from rfl))
      (readsOne_either (readsOne_text (show "=".toList = ['='] from rfl))
        (readsOne_either (readsOne_text (show "<".toList = ['<'] from rfl))
          (readsOne_text (show "\x60".toList = ['\x60'] from rfl)))))
  have shows := shows_either gapChar_reads.shows (shows_either (readsOne_text (show ">".toList = ['>'] from rfl)).shows
    (shows_either (shows_text "/>") tail.shows))
  apply shows.congr
  intro rest
  cases rest with
  | nil => rfl
  | cons c rest =>
    simp only [stopsBareValue, endsBareValue, isQuoteMark, List.head?_cons, Option.any_some]
    ac_rfl

/-- The whole name that starts here. -/
def nameAt (rest : List Char) : List Char := untilStop (fun rest => !(rest.head?.any isNameChar)) rest

private theorem nameAt_append {front rest : List Char} (members : ∀ c ∈ front, isNameChar c = true) :
    nameAt (front ++ rest) = front ++ nameAt rest := by
  induction front with
  | nil => rfl
  | cons c front ih =>
    obtain ⟨here, later⟩ := List.forall_mem_cons.mp members
    have goesOn : nameAt (c :: (front ++ rest)) = c :: nameAt (front ++ rest) := by simp [nameAt, untilStop, here]
    rw [List.cons_append, goesOn, ih later]
    rfl

private theorem nameAt_members (rest : List Char) : ∀ c ∈ nameAt rest, isNameChar c = true := by
  obtain ⟨follow, _, passes, _⟩ := untilStop_splits (fun rest => !(rest.head?.any isNameChar)) rest
  exact passes_members.mp passes

private theorem nameAt_starts (rest : List Char) : nameAt rest <+: rest := by
  obtain ⟨follow, same, _⟩ := untilStop_splits (fun rest => !(rest.head?.any isNameChar)) rest
  exact ⟨follow, same.symm⟩

private theorem nameAt_nil {rest : List Char} : nameAt rest = [] ↔ rest.head?.any isNameChar = false := by
  cases rest with
  | nil => simp [nameAt, untilStop]
  | cons c rest => cases isName : isNameChar c <;> simp [nameAt, untilStop, isName]

/-- The first of these words that the source starts with, in any letter case. -/
private def wordAt? (words : List (List Char)) (rest : List Char) : Option (List Char) :=
  words.find? fun word => decide (lowerCase (rest.take word.length) = word)

private theorem wordAt?_cons (word : List Char) (others : List (List Char)) (rest : List Char) :
    wordAt? (word :: others) rest =
      if lowerCase (rest.take word.length) = word then some word else wordAt? others rest := by
  by_cases same : lowerCase (rest.take word.length) = word <;> simp [wordAt?, same]

private theorem words_read {words : List (List Char)} (some : words ≠ []) (cursor : Cursor) :
    Comes (choice (words.map anyCase)) cursor ((wordAt? words cursor.rest).map fun word => cursor.skip word.length) := by
  have single (word : List Char) :
      Comes (anyCase word) cursor (if lowerCase (cursor.rest.take word.length) = word then
        Option.some (cursor.skip word.length) else none) := comes_terminal (.anyCase word) cursor
  induction words with
  | nil => exact absurd rfl some
  | cons word others ih =>
    have here := single word
    rw [wordAt?_cons]
    cases others with
    | nil =>
      split
      next same =>
        rw [if_pos same] at here
        exact here
      next other =>
        rw [if_neg other] at here
        exact here
    | cons second others =>
      have read := comes_either here (ih (by simp))
      split
      next same =>
        rw [if_pos same] at read
        exact read
      next other =>
        rw [if_neg other] at read
        exact read

/-- One of these words, as a whole name. -/
private theorem keyword_read {words : List (List Char)} (some : words ≠ [])
    (names : ∀ chars, words.contains (lowerCase chars) = true → ∀ c ∈ chars, isNameChar c = true)
    (free : ∀ one ∈ words, ∀ two ∈ words, one <+: two → one = two) (cursor : Cursor) :
    Comes (.both (choice (words.map anyCase)) (.without Grammar.nameChar)) cursor
      (if words.contains (lowerCase (nameAt cursor.rest)) then Option.some (cursor.skip (nameAt cursor.rest).length)
        else none) := by
  have first := words_read some cursor
  cases found : wordAt? words cursor.rest with
  | none =>
    rw [found] at first
    have other : words.contains (lowerCase (nameAt cursor.rest)) = false := by
      rw [Bool.eq_false_iff]
      intro known
      rw [List.contains_iff_mem] at known
      refine List.find?_eq_none.mp found _ known ?_
      rw [show (lowerCase (nameAt cursor.rest)).length = (nameAt cursor.rest).length from List.length_map _,
        ← List.prefix_iff_eq_take.mp (nameAt_starts cursor.rest)]
      exact decide_eq_true rfl
    rw [other]
    exact comes_both_fails first
  | some word =>
    rw [found] at first
    have member := List.mem_of_find?_eq_some found
    have lowered : lowerCase (cursor.rest.take word.length) = word := by simpa using List.find?_some found
    have length : (cursor.rest.take word.length).length = word.length := by
      simpa [lowerCase] using congrArg List.length lowered
    have members := names (cursor.rest.take word.length) (by rw [lowered, List.contains_iff_mem]; exact member)
    have whole : nameAt cursor.rest = cursor.rest.take word.length ++ nameAt (cursor.rest.drop word.length) := by
      rw [← nameAt_append members, List.take_append_drop]
    have behind := comes_without (nameChar_reads (cursor.skip word.length))
    rw [isSome_found] at behind
    cases more : (cursor.rest.drop word.length).head?.any isNameChar with
    | false =>
      rw [show (cursor.skip word.length).rest.head?.any isNameChar = false from more] at behind
      rw [whole, nameAt_nil.mpr more, List.append_nil, lowered, length, if_pos (List.contains_iff_mem.mpr member)]
      exact comes_both first behind
    | true =>
      rw [show (cursor.skip word.length).rest.head?.any isNameChar = true from more] at behind
      have other : words.contains (lowerCase (nameAt cursor.rest)) = false := by
        rw [Bool.eq_false_iff]
        intro known
        rw [List.contains_iff_mem, whole, lowerCase, List.map_append] at known
        rw [lowerCase] at lowered
        rw [lowered] at known
        have same := free word member _ known (List.prefix_append _ _)
        have none : nameAt (cursor.rest.drop word.length) = [] := by simpa using same
        rw [nameAt_nil, more] at none
        cases none
      rw [other]
      exact comes_both first behind

theorem scriptTag_read (cursor : Cursor) : Comes Grammar.scriptTag cursor
    (if isScriptName (nameAt cursor.rest) then some (cursor.skip (nameAt cursor.rest).length) else none) := by
  have known (chars : List Char) : [scriptName].contains (lowerCase chars) = isScriptName chars := by
    simp [isScriptName]
  have read := @keyword_read [scriptName] (by simp) (fun chars script => LegibleMarkup.tagName_chars
    (LegibleMarkup.script_tagName ((known chars).symm.trans script))) (by simp) cursor
  rwa [known] at read

theorem voidTag_read (cursor : Cursor) : Comes (Grammar.body .voidTag) cursor
    (if isVoidName (nameAt cursor.rest) then some (cursor.skip (nameAt cursor.rest).length) else none) :=
  keyword_read (by decide) (fun _ void => LegibleMarkup.tagName_chars (LegibleMarkup.void_tagName void)) (by decide) cursor

theorem tagName_read (cursor : Cursor) : Comes (Grammar.body .tagName) cursor
    (if isTagName (nameAt cursor.rest) then some (cursor.skip (nameAt cursor.rest).length) else none) := by
  have first := readsOne_member Char.isAlpha cursor
  cases split : cursor.rest with
  | nil =>
    rw [split] at first
    exact comes_both_fails first
  | cons c rest =>
    rw [split] at first
    cases letter : c.isAlpha with
    | false =>
      simp only [List.head?_cons, Option.any_some, letter] at first
      have other : isTagName (nameAt (c :: rest)) = false := by
        cases isName : isNameChar c with
        | false => simp [nameAt, untilStop, isName, isTagName]
        | true => simp [nameAt, untilStop, isName, isTagName, letter]
      rw [other]
      exact comes_both_fails first
    | true =>
      simp only [List.head?_cons, Option.any_some, letter] at first
      have isName : isNameChar c = true := by simp [isNameChar, Char.isAlphanum, letter]
      have whole : nameAt (c :: rest) = c :: nameAt rest := @nameAt_append [c] rest (by simpa using isName)
      have named : isTagName (c :: nameAt rest) = true := by
        rw [isTagName, letter, Bool.true_and, List.all_eq_true]
        exact nameAt_members rest
      have later := nameChar_reads.upTo.many (cursor.skip 1)
      rw [skip_skip, Nat.add_comm 1, show (cursor.skip 1).rest = rest by simp [Cursor.skip, split]] at later
      rw [whole, named]
      exact comes_both first later

variable {α β : Type} {scanner : Scanner α} {continued : α → Scanner β}

theorem bind_silent {value : α} (first : scanner cursor = ⟨some (value, middle), []⟩) :
    (scanner >>= continued) cursor = continued value middle := by
  change andThen scanner continued cursor = _
  simp [andThen, first]

theorem bind_fails (first : (scanner cursor).found = none) :
    (scanner >>= continued) cursor = ⟨none, (scanner cursor).trace⟩ := by
  change andThen scanner continued cursor = _
  simp [andThen, first]

/-- A scanner goes as far as an expression without rules. -/
structure Agrees (scanner : Scanner α) (expression : Expression) (cursor : Cursor) : Prop where
  silent : (scanner cursor).trace = []
  comes : Comes expression cursor ((scanner cursor).found.map Prod.snd)

private theorem agrees_outcome {found : Option (α × Cursor)} (outcome : scanner cursor = ⟨found, []⟩)
    (read : Comes expression cursor (found.map Prod.snd)) : Agrees scanner expression cursor := by
  constructor
  · rw [outcome]
  · rw [outcome]
    exact read

/-- A scanner that succeeds on a condition. -/
theorem agrees_found {condition : Bool} {value : α}
    (outcome : scanner cursor = ⟨if condition then some (value, middle) else none, []⟩)
    (read : Comes expression cursor (if condition then some middle else none)) : Agrees scanner expression cursor := by
  apply agrees_outcome outcome
  cases condition <;> exact read

theorem agrees_exactly (word : String) (cursor : Cursor) : Agrees (exactly word.toList) (.text word) cursor := by
  apply agrees_found _ (comes_terminal (.text word.toList) cursor)
  · exact ()
  · unfold exactly
    cases word.toList.isPrefixOf cursor.rest <;> rfl

theorem agrees_takeUntil {stop : List Char → Bool} (reads : ReadsUpTo expression stop) (cursor : Cursor) :
    Agrees (takeUntil stop) (.many expression) cursor := ⟨rfl, reads.many cursor⟩

theorem agrees_takeSomeUntil {stop : List Char → Bool} (reads : ReadsUpTo expression stop) (cursor : Cursor) :
    Agrees (takeSomeUntil stop) (Expression.some expression) cursor := by
  have outcome : takeSomeUntil stop cursor = ⟨if (untilStop stop cursor.rest).isEmpty then none
      else some (untilStop stop cursor.rest, cursor.skip (untilStop stop cursor.rest).length), []⟩ := by
    rw [takeSomeUntil, bind_silent rfl]
    cases (untilStop stop cursor.rest).isEmpty with
    | false => rw [bind_silent rfl]; rfl
    | true => rw [bind_fails rfl]; rfl
  have read := reads.some cursor
  apply agrees_outcome outcome
  cases empty : (untilStop stop cursor.rest).isEmpty <;> simpa [empty] using read

theorem agrees_gap (cursor : Cursor) : Agrees gap (.many Grammar.gapChar) cursor :=
  agrees_takeUntil gapChar_reads.upTo cursor

theorem agrees_nameWhere {accepted : List Char → Bool}
    (read : Comes expression cursor (if accepted (nameAt cursor.rest) then
      some (cursor.skip (nameAt cursor.rest).length) else none)) : Agrees (nameWhere accepted) expression cursor := by
  apply agrees_found _ read
  · exact nameAt cursor.rest
  · have taken : takeWhile isNameChar cursor =
        ⟨some (nameAt cursor.rest, cursor.skip (nameAt cursor.rest).length), []⟩ := rfl
    rw [nameWhere, bind_silent taken]
    cases accepted (nameAt cursor.rest) with
    | true => rw [bind_silent rfl]; rfl
    | false => rw [bind_fails rfl]; rfl

theorem agrees_notScript (cursor : Cursor) : Agrees notScript (.without Grammar.scriptTag) cursor := by
  have read := comes_without (scriptTag_read cursor)
  rw [isSome_found] at read
  have outcome : notScript cursor = require (!isScriptName (nameAt cursor.rest)) cursor := by
    rw [notScript, bind_silent rfl, nameAt]
  cases script : isScriptName (nameAt cursor.rest) with
  | false =>
    rw [script] at read outcome
    exact agrees_outcome outcome read
  | true =>
    rw [script] at read outcome
    exact agrees_outcome outcome read

theorem agrees_closingScriptName (cursor : Cursor) : Agrees closingScriptName (anyCase scriptName) cursor := by
  have read := comes_terminal (.anyCase scriptName) cursor
  rw [Terminal.read, show scriptName.length = 6 from rfl] at read
  have outcome : closingScriptName cursor = (do
      require (isScriptName (cursor.rest.take 6))
      exactly (cursor.rest.take 6)
      return cursor.rest.take 6) cursor := by rw [closingScriptName, bind_silent rfl]
  by_cases script : lowerCase (cursor.rest.take 6) = scriptName
  · have length : (cursor.rest.take 6).length = 6 := by simpa [lowerCase, scriptName] using congrArg List.length script
    have starts : (cursor.rest.take 6).isPrefixOf cursor.rest = true :=
      List.isPrefixOf_iff_prefix.mpr (List.take_prefix _ _)
    have read' : exactly (cursor.rest.take 6) cursor = ⟨some ((), cursor.skip 6), []⟩ := by
      rw [exactly, if_pos starts, length]
    rw [isScriptName, decide_eq_true script, bind_silent rfl, bind_silent read'] at outcome
    rw [if_pos script] at read
    exact agrees_outcome outcome read
  · rw [isScriptName, decide_eq_false script, bind_fails rfl] at outcome
    rw [if_neg script] at read
    exact agrees_outcome outcome read

theorem agrees_popTag (cursor : Cursor) : Agrees popTag (.terminal .pop) cursor := by
  have read := comes_terminal .pop cursor
  simp only [Terminal.read] at read
  cases opened : cursor.opened with
  | nil =>
    have outcome : popTag cursor = ⟨none, []⟩ := by simp only [popTag, opened]
    rw [opened] at read
    exact agrees_outcome outcome read
  | cons tag outer =>
    rw [opened] at read
    apply agrees_found _ read
    · exact ()
    · simp only [popTag, opened]
      cases tag.isPrefixOf cursor.rest <;> rfl

theorem agrees_dropTag (cursor : Cursor) : Agrees dropTag (.terminal .drop) cursor := by
  have read := comes_terminal .drop cursor
  simp only [Terminal.read] at read
  cases opened : cursor.opened with
  | nil =>
    have outcome : dropTag cursor = ⟨none, []⟩ := by simp only [dropTag, opened]
    rw [opened] at read
    exact agrees_outcome outcome read
  | cons tag outer =>
    have outcome : dropTag cursor = ⟨some ((), { cursor with opened := outer }), []⟩ := by simp only [dropTag, opened]
    rw [opened] at read
    exact agrees_outcome outcome read

end Stencil.Proofs.SilentScanners
