import Mathlib
import Stencil.Directive.Loop

/-! The search behind loop directives. A pattern matches in several ways, which are tried in order: a
repetition takes as much as it can or as little as it can, and an option is taken rather than not. The
first way counts. Splitting a directive gives the parts that this way captures, without a search. -/

namespace Stencil.Proofs.LoopSearch
open Directive
open Text (isBlank trimChars)

inductive Group where
  | item
  | key
  | iterable
deriving DecidableEq

inductive Pattern where
  | one (holds : Char → Bool)
  | most (holds : Char → Bool)
  | least (holds : Char → Bool)
  | both (first second : Pattern)
  | optional (pattern : Pattern)
  | capture (group : Group) (pattern : Pattern)
  | finish

/-- What has been captured on the way through a text, and what is left of the text. -/
structure Way where
  captured : List (Group × List Char)
  rest : List Char
deriving DecidableEq

/-- What is left behind characters of a kind, behind the most of them first. -/
def longest (holds : Char → Bool) : List Char → List (List Char)
  | [] => [[]]
  | c :: rest => if holds c then longest holds rest ++ [c :: rest] else [c :: rest]

def shortest (holds : Char → Bool) : List Char → List (List Char)
  | [] => [[]]
  | c :: rest => if holds c then (c :: rest) :: shortest holds rest else [c :: rest]

/-- The text in front of what is left. -/
def taken (chars rest : List Char) : List Char := chars.take (chars.length - rest.length)

/-- The ways of a pattern through the front of a text, in the order in which they are tried. -/
def ways : Pattern → List Char → List Way
  | .one holds, chars =>
    match chars with
    | [] => []
    | c :: rest => if holds c then [⟨[], rest⟩] else []
  | .most holds, chars => (longest holds chars).map (⟨[], ·⟩)
  | .least holds, chars => (shortest holds chars).map (⟨[], ·⟩)
  | .both first second, chars => (ways first chars).flatMap fun way =>
    (ways second way.rest).map fun later => ⟨way.captured ++ later.captured, later.rest⟩
  | .optional pattern, chars => ways pattern chars ++ [⟨[], chars⟩]
  | .capture group pattern, chars => (ways pattern chars).map fun way =>
    ⟨(group, taken chars way.rest) :: way.captured, way.rest⟩
  | .finish, chars => if chars.isEmpty then [⟨[], []⟩] else []

/-- What the first way from the front of a text captures. -/
def search (pattern : Pattern) (chars : List Char) : Option (List (Group × List Char)) :=
  (ways pattern chars).head?.map Way.captured

/-- One character of a kind, and the most of them behind it. -/
def Pattern.run (holds : Char → Bool) : Pattern := .both (.one holds) (.most holds)

def anything (_ : Char) : Bool := true

def iterablePattern : Pattern := .both (.capture .iterable (.run anything)) .finish

/-- Blanks, the word `in`, blanks again, and the iterable up to the end. -/
def wordPattern : Pattern :=
  .both (.run isBlank) (.both (.one (· = 'i')) (.both (.one (· = 'n')) (.both (.run isBlank) iterablePattern)))

/-- A comma, blanks, and the key, as little of it as will do. -/
def keyPattern : Pattern :=
  .both (.one (· = ',')) (.both (.most isBlank) (.capture .key (.both (.one anything) (.least anything))))

/-- The pattern `^([A-Za-z_$][A-Za-z0-9_$]*)\s*(?:,\s*(.+?))?\s+in\s+(.+)$`, where a dot is any character. -/
def directivePattern : Pattern :=
  .both (.capture .item (.both (.one startsIdentifier) (.most continuesIdentifier)))
    (.both (.most isBlank) (.both (.optional keyPattern) wordPattern))

theorem blank_endsIdentifier {c : Char} (blank : isBlank c = true) : continuesIdentifier c = false := by
  have code (d : Char) : c = d ↔ c.toNat = d.toNat := ⟨congrArg _, Char.toNat_inj.mp⟩
  simp only [isBlank, Bool.or_eq_true, Bool.and_eq_true, decide_eq_true_eq, beq_iff_eq] at blank
  simp only [continuesIdentifier, startsIdentifier, Char.isAlpha, Char.isUpper, Char.isLower, Char.isDigit, code,
    ↓Char.isValue, Char.reduceVal, ge_iff_le, UInt32.le_iff_toNat_le, UInt32.reduceToNat, Char.toNat_val,
    Bool.decide_and, Char.reduceToNat, Bool.or_eq_false_iff, Bool.and_eq_false_imp, decide_eq_true_eq,
    decide_eq_false_iff_not, not_le]
  omega

private theorem taken_append (front rest : List Char) : taken (front ++ rest) rest = front := by
  simp [taken]

section

variable {α : Type} {holds : Char → Bool}

private theorem findSome_flatMap {β γ : Type} (items : List α) (made : α → List β) (next : β → Option γ) :
    (items.flatMap made).findSome? next = items.findSome? fun item => (made item).findSome? next := by
  induction items with
  | nil => rfl
  | cons item items ih =>
    rw [List.flatMap_cons, List.findSome?_append, ih, List.findSome?_cons]
    cases (made item).findSome? next <;> rfl

private theorem ways_both (first second : Pattern) (chars : List Char) (next : Way → Option α) :
    (ways (.both first second) chars).findSome? next = (ways first chars).findSome? fun way =>
      (ways second way.rest).findSome? fun later => next ⟨way.captured ++ later.captured, later.rest⟩ := by
  rw [ways, findSome_flatMap]
  simp only [List.findSome?_map, Function.comp_def]

private theorem ways_one (chars : List Char) (next : Way → Option α) :
    (ways (.one holds) chars).findSome? next =
      match chars with
      | [] => none
      | c :: rest => if holds c then next ⟨[], rest⟩ else none := by
  cases chars with
  | nil => rfl
  | cons c rest =>
    simp only [ways]
    split
    · cases found : next ⟨[], rest⟩ <;> simp [found]
    · rfl

private theorem ways_most (chars : List Char) (next : Way → Option α) :
    (ways (.most holds) chars).findSome? next = (longest holds chars).findSome? fun rest => next ⟨[], rest⟩ := by
  rw [ways, List.findSome?_map]
  rfl

private theorem ways_run (chars : List Char) (next : Way → Option α) :
    (ways (.run holds) chars).findSome? next =
      match chars with
      | [] => none
      | c :: rest => if holds c then (longest holds rest).findSome? fun later => next ⟨[], later⟩ else none := by
  rw [Pattern.run, ways_both, ways_one]
  cases chars with
  | nil => rfl
  | cons c rest => simp only [ways_most, List.nil_append]

private theorem ways_least (chars : List Char) (next : Way → Option α) :
    (ways (.least holds) chars).findSome? next = (shortest holds chars).findSome? fun rest => next ⟨[], rest⟩ := by
  rw [ways, List.findSome?_map]
  rfl

private theorem ways_capture (group : Group) (pattern : Pattern) (chars : List Char) (next : Way → Option α) :
    (ways (.capture group pattern) chars).findSome? next = (ways pattern chars).findSome? fun way =>
      next ⟨(group, taken chars way.rest) :: way.captured, way.rest⟩ := by
  rw [ways, List.findSome?_map]
  rfl

private theorem ways_optional (pattern : Pattern) (chars : List Char) (next : Way → Option α) :
    (ways (.optional pattern) chars).findSome? next = ((ways pattern chars).findSome? next).or (next ⟨[], chars⟩) := by
  rw [ways, List.findSome?_append]
  cases found : next ⟨[], chars⟩ <;> simp [found]

private theorem longest_found {chars : List Char} {next : List Char → Option α} {result : α}
    (found : next (chars.dropWhile holds) = some result) : (longest holds chars).findSome? next = some result := by
  induction chars with
  | nil => simpa [longest] using found
  | cons c rest ih =>
    unfold longest
    split
    next own =>
      rw [List.dropWhile_cons_of_pos own] at found
      rw [List.findSome?_append, ih found, Option.some_or]
    next other =>
      rw [List.dropWhile_cons_of_neg other] at found
      simp [found]

private theorem longest_forced {chars : List Char} {next : List Char → Option α}
    (forced : ∀ c rest, holds c = true → c :: rest <:+ chars → next (c :: rest) = none) :
    (longest holds chars).findSome? next = next (chars.dropWhile holds) := by
  induction chars with
  | nil => exact List.findSome?_singleton
  | cons c rest ih =>
    unfold longest
    split
    next own =>
      have later := ih fun d tail holds suffix => forced d tail holds (suffix.trans (List.suffix_cons c rest))
      rw [List.findSome?_append, later, List.findSome?_singleton, forced c rest own (List.suffix_refl _), Option.or_none,
        List.dropWhile_cons_of_pos own]
    next other => rw [List.findSome?_singleton, List.dropWhile_cons_of_neg other]

private theorem longest_congr {chars : List Char} {one other : List Char → Option α}
    (same : ∀ later, later <:+ chars → one later = other later) :
    (longest holds chars).findSome? one = (longest holds chars).findSome? other := by
  induction chars with
  | nil => simp [longest, same]
  | cons c rest ih =>
    have later := ih fun tail suffix => same tail (suffix.trans (List.suffix_cons c rest))
    have here := same (c :: rest) (List.suffix_refl _)
    unfold longest
    split
    · rw [List.findSome?_append, List.findSome?_append, later, List.findSome?_singleton, List.findSome?_singleton, here]
    · rw [List.findSome?_singleton, List.findSome?_singleton, here]

end

/-- Text without a blank at its end. -/
private def Unpadded (chars : List Char) : Prop := ∀ c ∈ chars.getLast?, isBlank c = false

private theorem Unpadded.suffix {chars rest : List Char} (unpadded : Unpadded chars) (suffix : rest <:+ chars) :
    Unpadded rest := by
  obtain ⟨front, rfl⟩ := suffix
  intro c last
  apply unpadded c
  cases rest with
  | nil => cases last
  | cons d rest => simpa using last

private theorem Unpadded.visible {c : Char} {rest : List Char} (unpadded : Unpadded (c :: rest)) (blank : isBlank c = true) :
    rest.dropWhile isBlank ≠ [] := by
  intro empty
  have blanks : ∀ d ∈ c :: rest, isBlank d = true := List.forall_mem_cons.mpr ⟨blank, List.dropWhile_eq_nil_iff.mp empty⟩
  have last := unpadded ((c :: rest).getLast (List.cons_ne_nil _ _)) (List.getLast?_eq_some_getLast _)
  rw [blanks _ (List.getLast_mem _)] at last
  cases last

/-- Trimmed text does not end with a blank. -/
theorem trimChars_back {chars front : List Char} {c : Char} (trimmed : trimChars chars = front ++ [c]) :
    isBlank c = false := by
  change (chars.dropWhile isBlank).rdropWhile isBlank = front ++ [c] at trimmed
  have last := List.rdropWhile_last_not isBlank (chars.dropWhile isBlank) (by simp [trimmed])
  simpa [trimmed] using last

private theorem unpadded_trimmed (chars : List Char) : Unpadded (trimChars chars) := by
  intro c last
  obtain ⟨front, same⟩ := List.getLast?_eq_some_iff.mp last
  exact trimChars_back same

theorem dropWhile_visible {chars rest : List Char} {c : Char} (dropped : chars.dropWhile isBlank = c :: rest) :
    isBlank c = false := by
  simpa [dropped] using List.head?_dropWhile_not isBlank chars

section

variable {α : Type}

private theorem ways_iterable (chars : List Char) (next : Way → Option α) :
    (ways iterablePattern chars).findSome? next = if chars = [] then none else next ⟨[(.iterable, chars)], []⟩ := by
  rw [iterablePattern, ways_both, ways_capture, ways_run]
  cases chars with
  | nil => rfl
  | cons c rest =>
    have all : rest.dropWhile anything = [] := List.dropWhile_eq_nil_iff.mpr fun _ _ => rfl
    simp only [anything, ite_true, reduceCtorEq, ite_false]
    rw [longest_forced (by simp [ways]), all]
    simp [ways, taken]

private theorem ways_behindWord {d : Char} {tail : List Char} (unpadded : Unpadded (d :: tail)) (next : Way → α) :
    (ways (.both (.run isBlank) iterablePattern) (d :: tail)).findSome? (fun way => some (next way)) =
      if isBlank d then some (next ⟨[(.iterable, tail.dropWhile isBlank)], []⟩) else none := by
  rw [ways_both, ways_run]
  simp only [ways_iterable, List.nil_append]
  split
  next blank =>
    apply longest_found
    rw [if_neg (unpadded.visible blank)]
  next => rfl

/-- What stands behind the word and its blanks, in text that starts with the word. -/
private def afterWord? : List Char → Option (List Char)
  | 'i' :: 'n' :: d :: tail =>
    if isBlank d then
      match tail.dropWhile isBlank with
      | [] => none
      | iterable => some iterable
    else none
  | _ => none

private theorem afterIn_cons (c : Char) (rest : List Char) :
    afterIn? (c :: rest) = if isBlank c then afterWord? (rest.dropWhile isBlank) else none := rfl

private theorem afterWord_visible {d : Char} {tail : List Char} (unpadded : Unpadded (d :: tail)) :
    afterWord? ('i' :: 'n' :: d :: tail) = if isBlank d then some (tail.dropWhile isBlank) else none := by
  rw [afterWord?]
  split
  next blank =>
    cases found : tail.dropWhile isBlank with
    | nil => exact absurd found (unpadded.visible blank)
    | cons e later => rfl
  next => rfl

private theorem ways_letters {chars : List Char} (unpadded : Unpadded chars) (next : Way → α) :
    (ways (.both (.one (· = 'i')) (.both (.one (· = 'n')) (.both (.run isBlank) iterablePattern))) chars).findSome?
        (fun way => some (next way)) = (afterWord? chars).map fun iterable => next ⟨[(.iterable, iterable)], []⟩ := by
  rw [ways_both, ways_one]
  match chars with
  | [] => rfl
  | c :: rest =>
    by_cases first : c = 'i'
    · subst first
      simp only [decide_true, ite_true]
      rw [ways_both, ways_one]
      match rest with
      | [] => rfl
      | e :: rest =>
        by_cases second : e = 'n'
        · subst second
          match rest with
          | [] => rfl
          | d :: tail =>
            have within : Unpadded (d :: tail) := unpadded.suffix ⟨['i', 'n'], rfl⟩
            rw [afterWord_visible within]
            refine (ways_behindWord within next).trans ?_
            split <;> rfl
        · simp [afterWord?, second]
    · simp [afterWord?, first]

private theorem ways_word {chars : List Char} (unpadded : Unpadded chars) (next : Way → α) :
    (ways wordPattern chars).findSome? (fun way => some (next way)) =
      (afterIn? chars).map fun iterable => next ⟨[(.iterable, iterable)], []⟩ := by
  rw [wordPattern, ways_both, ways_run]
  cases chars with
  | nil => rfl
  | cons c rest =>
    rw [afterIn_cons]
    by_cases blank : isBlank c = true
    · have within : Unpadded (rest.dropWhile isBlank) :=
        unpadded.suffix ((List.dropWhile_suffix isBlank).trans (List.suffix_cons c rest))
      simp only [blank, ite_true]
      rw [longest_forced]
      · exact ways_letters within next
      · intro d later blank' _
        have other : d ≠ 'i' := by
          rintro rfl
          cases blank'
        simp [ways_both, ways_one, other]
    · simp [blank]

/-- The shortest text that the word follows, and the iterable behind it. -/
private def beforeWord? : List Char → Option (List Char × List Char)
  | [] => none
  | c :: rest =>
    ((afterIn? (c :: rest)).map ([], ·)).or ((beforeWord? rest).map fun found => (c :: found.1, found.2))

/-- A key with one character at least, and the iterable. -/
private def firstKey? : List Char → Option (List Char × List Char)
  | [] => none
  | c :: rest => (beforeWord? rest).map fun found => (c :: found.1, found.2)

private theorem shortest_word {rest : List Char} (unpadded : Unpadded rest) (front : List Char)
    (next : List Char → Way → α) :
    (shortest anything rest).findSome? (fun later =>
        (ways wordPattern later).findSome? fun way => some (next (taken (front ++ rest) later) way)) =
      (beforeWord? rest).map fun found => next (front ++ found.1) ⟨[(.iterable, found.2)], []⟩ := by
  induction rest generalizing front with
  | nil =>
    rw [shortest, List.findSome?_singleton, ways_word unpadded, afterIn?, beforeWord?, Option.map_none, Option.map_none]
  | cons c rest ih =>
    have later := ih (unpadded.suffix (List.suffix_cons c rest)) (front ++ [c])
    rw [List.append_assoc, List.singleton_append] at later
    rw [shortest, if_pos (show anything c = true from rfl), List.findSome?_cons, ways_word unpadded, taken_append, beforeWord?]
    cases afterIn? (c :: rest) with
    | some iterable => simp
    | none => simp [later, Function.comp_def]

private theorem ways_key {chars : List Char} (unpadded : Unpadded chars) (next : Way → α) :
    (ways (.capture .key (.both (.one anything) (.least anything))) chars).findSome? (fun way =>
        (ways wordPattern way.rest).findSome? fun later => some (next ⟨way.captured ++ later.captured, later.rest⟩)) =
      (firstKey? chars).map fun found => next ⟨[(.key, found.1), (.iterable, found.2)], []⟩ := by
  rw [ways_capture, ways_both, ways_one]
  cases chars with
  | nil => rfl
  | cons c rest =>
    have within := unpadded.suffix (List.suffix_cons c rest)
    have found := shortest_word within [c] fun key later => next ⟨(.key, key) :: later.captured, later.rest⟩
    simp only [anything, ite_true, ways_least]
    refine found.trans ?_
    simp [firstKey?, Function.comp_def]

/-- What is read behind a comma. -/
private def firstKeyed? (behind : List Char) : Option (List Char × List Char) :=
  (longest isBlank behind).findSome? firstKey?

private def afterComma? : List Char → Option (List Char × List Char)
  | ',' :: behind => firstKeyed? behind
  | _ => none

private theorem ways_comma {chars : List Char} (unpadded : Unpadded chars) (next : Way → α) :
    (ways keyPattern chars).findSome? (fun way =>
        (ways wordPattern way.rest).findSome? fun later => some (next ⟨way.captured ++ later.captured, later.rest⟩)) =
      (afterComma? chars).map fun found => next ⟨[(.key, found.1), (.iterable, found.2)], []⟩ := by
  rw [keyPattern, ways_both, ways_one]
  match chars with
  | [] => rfl
  | c :: behind =>
    by_cases comma : c = ','
    · subst comma
      simp only [decide_true, ite_true]
      rw [ways_both, ways_most, afterComma?, firstKeyed?, List.map_findSome?]
      apply longest_congr
      intro later suffix
      exact ways_key (unpadded.suffix (suffix.trans (List.suffix_cons ',' behind))) next
    · simp [afterComma?, comma]

/-- A key, if there is one, and the iterable. -/
private def keyOrWord? (chars : List Char) : Option (Option (List Char) × List Char) :=
  ((afterComma? chars).map fun found => (some found.1, found.2)).or ((afterIn? chars).map (none, ·))

private def captures (found : Option (List Char) × List Char) : List (Group × List Char) :=
  found.1.toList.map (.key, ·) ++ [(.iterable, found.2)]

private theorem ways_keyOrWord {chars : List Char} (unpadded : Unpadded chars) (next : Way → α) :
    (ways (.both (.optional keyPattern) wordPattern) chars).findSome? (fun way => some (next way)) =
      (keyOrWord? chars).map fun found => next ⟨captures found, []⟩ := by
  rw [ways_both, ways_optional, ways_comma unpadded, keyOrWord?]
  have word := ways_word unpadded fun later => next ⟨[] ++ later.captured, later.rest⟩
  rw [word]
  cases afterComma? chars with
  | some found => rfl
  | none => cases afterIn? chars <;> rfl

/-- What is read behind the item. -/
private def behindItem? (tail : List Char) : Option (Option (List Char) × List Char) :=
  match tail.dropWhile isBlank with
  | ',' :: behind => (firstKeyed? behind).map fun found => (some found.1, found.2)
  | _ => (afterIn? tail).map (none, ·)

private theorem behindItem_comma {tail behind : List Char} (dropped : tail.dropWhile isBlank = ',' :: behind) :
    behindItem? tail = (firstKeyed? behind).map fun found => (some found.1, found.2) := by
  simp only [behindItem?, dropped]

private theorem behindItem_other {tail : List Char} (other : ∀ behind, tail.dropWhile isBlank ≠ ',' :: behind) :
    behindItem? tail = (afterIn? tail).map (none, ·) := by
  unfold behindItem?
  split
  next same => exact absurd same (other _)
  next => rfl

private theorem afterIn_blank {c : Char} {rest iterable : List Char} (blank : isBlank c = true)
    (found : afterIn? rest = some iterable) : afterIn? (c :: rest) = some iterable := by
  cases rest with
  | nil => cases found
  | cons d rest =>
    rw [afterIn_cons] at found ⊢
    by_cases blank' : isBlank d = true
    · rw [if_pos blank'] at found
      rw [if_pos blank, List.dropWhile_cons_of_pos blank', found]
    · rw [if_neg blank'] at found
      cases found

private theorem longest_keyOrWord (tail : List Char) : (longest isBlank tail).findSome? keyOrWord? = behindItem? tail := by
  induction tail with
  | nil => rfl
  | cons c rest ih =>
    by_cases blank : isBlank c = true
    · have noComma : afterComma? (c :: rest) = none := by
        unfold afterComma?
        split
        next same =>
          cases same
          cases blank
        next => rfl
      rw [longest, if_pos blank, List.findSome?_append, List.findSome?_singleton, ih, keyOrWord?, noComma, Option.map_none,
        Option.none_or]
      unfold behindItem?
      rw [List.dropWhile_cons_of_pos blank]
      split
      next behind same =>
        have noWord : afterIn? (c :: rest) = none := by
          rw [afterIn_cons, if_pos blank, same]
          rfl
        rw [noWord, Option.map_none, Option.or_none]
      next =>
        cases found : afterIn? rest with
        | none => rfl
        | some iterable => rw [afterIn_blank blank found]; rfl
    · have noWord : afterIn? (c :: rest) = none := by rw [afterIn_cons, if_neg blank]
      rw [longest, if_neg blank, List.findSome?_singleton, keyOrWord?, behindItem?, List.dropWhile_cons_of_neg blank, noWord]
      unfold afterComma?
      split <;> simp

private theorem ways_behindItem {tail : List Char} (unpadded : Unpadded tail) (next : Way → α) :
    (ways (.both (.most isBlank) (.both (.optional keyPattern) wordPattern)) tail).findSome? (fun way => some (next way)) =
      (behindItem? tail).map fun found => next ⟨captures found, []⟩ := by
  rw [ways_both, ways_most, ← longest_keyOrWord, List.map_findSome?]
  apply longest_congr
  intro later suffix
  exact ways_keyOrWord (unpadded.suffix suffix) next

private theorem behindItem_continued {c : Char} (continues : continuesIdentifier c = true) (rest : List Char) :
    behindItem? (c :: rest) = none := by
  have visible : ¬ isBlank c = true := by
    intro blank
    rw [blank_endsIdentifier blank] at continues
    cases continues
  have noWord : afterIn? (c :: rest) = none := by rw [afterIn_cons, if_neg visible]
  unfold behindItem?
  rw [List.dropWhile_cons_of_neg visible, noWord]
  split
  next same =>
    cases same
    cases continues
  next => rfl

end

private theorem search_item {chars : List Char} (unpadded : Unpadded chars) :
    search directivePattern chars =
      if isIdentifierChars (chars.takeWhile continuesIdentifier) then
        (behindItem? (chars.dropWhile continuesIdentifier)).map fun found =>
          (.item, chars.takeWhile continuesIdentifier) :: captures found
      else none := by
  have first : search directivePattern chars =
      (ways directivePattern chars).findSome? fun way => some way.captured := by
    rw [search]
    cases ways directivePattern chars <;> rfl
  rw [first, directivePattern, ways_both, ways_capture, ways_both, ways_one]
  cases chars with
  | nil => rfl
  | cons c rest =>
    by_cases starts : startsIdentifier c = true
    · have continues : continuesIdentifier c = true := by simp [continuesIdentifier, starts]
      have identifier : isIdentifierChars (c :: rest.takeWhile continuesIdentifier) = true := by
        simp only [isIdentifierChars, starts, Bool.true_and, List.all_eq_true]
        exact fun d member => List.mem_takeWhile_imp member
      have parts : taken (c :: rest) (rest.dropWhile continuesIdentifier) = c :: rest.takeWhile continuesIdentifier := by
        have whole := taken_append (c :: rest.takeWhile continuesIdentifier) (rest.dropWhile continuesIdentifier)
        rwa [List.cons_append, List.takeWhile_append_dropWhile] at whole
      have within : Unpadded (rest.dropWhile continuesIdentifier) :=
        unpadded.suffix ((List.dropWhile_suffix _).trans (List.suffix_cons c rest))
      simp only [starts, ite_true]
      rw [ways_most, longest_forced, List.takeWhile_cons_of_pos continues, List.dropWhile_cons_of_pos continues,
        if_pos identifier]
      · simp only [parts]
        exact ways_behindItem within _
      · intro d later continues' suffix
        have behind := unpadded.suffix (suffix.trans (List.suffix_cons c rest))
        rw [ways_behindItem behind, behindItem_continued continues', Option.map_none]
    · have identifier : isIdentifierChars ((c :: rest).takeWhile continuesIdentifier) = false := by
        rw [List.takeWhile_cons]
        split <;> simp [isIdentifierChars, starts]
      simp [starts, identifier]

private theorem keyAndIterable_cons (c : Char) (rest : List Char) :
    keyAndIterable? (c :: rest) = ((if isBlank c then none else afterIn? rest).map ([c], ·)).or
      ((keyAndIterable? rest).map fun found => (c :: found.1, found.2)) := by
  conv_lhs => unfold keyAndIterable?
  split
  next found => rw [found]; rfl
  next missing => rw [missing]; rfl

/-- A first character that is no blank is part of the key. So is a blank that the word does not follow. -/
private theorem firstKey_word {c : Char} {rest : List Char} (shut : isBlank c = true → afterIn? rest = none) :
    firstKey? (c :: rest) = keyAndIterable? (c :: rest) := by
  induction rest generalizing c with
  | nil =>
    rw [keyAndIterable_cons]
    split <;> rfl
  | cons d rest ih =>
    have own : (if isBlank c then none else afterIn? (d :: rest)) = afterIn? (d :: rest) := by
      split
      next blank => exact (shut blank).symm
      next => rfl
    rw [firstKey?, beforeWord?, keyAndIterable_cons, own]
    cases found : afterIn? (d :: rest) with
    | some iterable => rfl
    | none =>
      have later := @ih d fun blank => by
        rw [Option.eq_none_iff_forall_ne_some]
        intro iterable found'
        rw [afterIn_blank blank found'] at found
        cases found
      rw [firstKey?] at later
      simp [← later]

private theorem firstKeyed_cons {c : Char} (blank : isBlank c = true) (rest : List Char) :
    firstKeyed? (c :: rest) = (firstKeyed? rest).or (firstKey? (c :: rest)) := by
  rw [firstKeyed?, longest, if_pos blank, List.findSome?_append, List.findSome?_singleton, firstKeyed?]

private theorem firstKeyed_none {rest : List Char} (missing : firstKeyed? rest = none) : firstKey? rest = none := by
  cases rest with
  | nil => rfl
  | cons c rest =>
    by_cases blank : isBlank c = true
    · rw [firstKeyed_cons blank, Option.or_eq_none_iff] at missing
      exact missing.2
    · rwa [firstKeyed?, longest, if_neg blank, List.findSome?_singleton] at missing

/-- The iterable where a blank has to do for the key. -/
private def blankKey? : List Char → Option (List Char)
  | [] => none
  | c :: rest => if isBlank c then afterIn? rest else none

private def trimmedKey (found : List Char × List Char) : List Char × List Char := (trimChars found.1, found.2)

/-- Where there is no key behind the blanks, the last blank but those of the word is taken for it. -/
private theorem firstKeyed_blank {behind : List Char} (missing : keyAndIterable? (behind.dropWhile isBlank) = none) :
    (firstKeyed? behind).map trimmedKey = (blankKey? behind).map ([], ·) := by
  induction behind with
  | nil => rfl
  | cons c rest ih =>
    by_cases blank : isBlank c = true
    · rw [List.dropWhile_cons_of_pos blank] at missing
      have later := ih missing
      rw [firstKeyed_cons blank, blankKey?, if_pos blank]
      cases found : blankKey? rest with
      | some iterable =>
        obtain ⟨key, same, trimmed⟩ := Option.map_eq_some_iff.mp (later.trans (congrArg _ found))
        have word : afterIn? rest = some iterable := by
          cases rest with
          | nil => cases found
          | cons d rest =>
            rw [blankKey?] at found
            split at found
            next blank' => exact afterIn_blank blank' found
            next => cases found
        rw [same, word, Option.some_or, Option.map_some, trimmed, Option.map_some]
      | none =>
        have none : firstKeyed? rest = none := Option.map_eq_none_iff.mp (later.trans (congrArg _ found))
        have key := firstKeyed_none none
        rw [none, Option.none_or, firstKey?]
        cases rest with
        | nil => rfl
        | cons d rest =>
          rw [firstKey?, Option.map_eq_none_iff] at key
          rw [beforeWord?, key]
          cases afterIn? (d :: rest) with
          | none => rfl
          | some iterable => simp [trimmedKey, trimChars, blank]
    · have key := missing
      rw [List.dropWhile_cons_of_neg blank, ← firstKey_word fun own => absurd own blank] at key
      rw [firstKeyed?, longest, if_neg blank, List.findSome?_singleton, key, blankKey?, if_neg blank]
      rfl

private theorem firstKeyed_trimmed (behind : List Char) :
    (firstKeyed? behind).map trimmedKey = (keyAfterComma? behind).map trimmedKey := by
  unfold keyAfterComma?
  split
  next key found =>
    have first : firstKey? (behind.dropWhile isBlank) = some key := by
      cases dropped : behind.dropWhile isBlank with
      | nil =>
        rw [dropped] at found
        cases found
      | cons c rest =>
        have visible := dropWhile_visible dropped
        rw [firstKey_word (by simp [visible]), ← dropped, found]
    rw [firstKeyed?, longest_found first]
  next missing =>
    rw [firstKeyed_blank missing]
    cases behind with
    | nil => rfl
    | cons c rest =>
      simp only [blankKey?]
      split
      next blank => cases afterIn? rest <;> simp [trimmedKey, trimChars, blank]
      next => rfl

/-- The item, the key and the iterable among what has been captured. The last two are trimmed. -/
def parts (captured : List (Group × List Char)) : Option (List Char) × Option (List Char) × Option (List Char) :=
  (captured.lookup .item, (captured.lookup .key).map trimChars, (captured.lookup .iterable).map trimChars)

/-- A trimmed directive is split into what the search captures in it, and it is not split if nothing is found. -/
theorem search_split (text : List Char) :
    (search directivePattern (trimChars text)).map parts = (splitLoop? (trimChars text)).map fun (item, key, iterable) =>
      (some item, key.map trimChars, some (trimChars iterable)) := by
  rw [search_item (unpadded_trimmed text)]
  unfold splitLoop?
  generalize trimChars text = chars
  by_cases identifier : isIdentifierChars (chars.takeWhile continuesIdentifier) = true
  · simp only [identifier, ite_true]
    by_cases comma : ∃ behind, (chars.dropWhile continuesIdentifier).dropWhile isBlank = ',' :: behind
    · obtain ⟨behind, dropped⟩ := comma
      have same := congrArg (Option.map fun found : List Char × List Char =>
          (some (chars.takeWhile continuesIdentifier), some found.1, some (trimChars found.2))) (firstKeyed_trimmed behind)
      rw [Option.map_map, Option.map_map] at same
      rw [behindItem_comma dropped]
      simp only [dropped, Option.map_map]
      exact same
    · have other := not_exists.mp comma
      rw [behindItem_other other]
      split
      next same => exact absurd same (other _)
      next => cases afterIn? (chars.dropWhile continuesIdentifier) <;> rfl
  · simp only [identifier]
    rfl

/-- Reads a directive from what has been captured in it. -/
def readCaptured (captured : List (Group × List Char)) : Except Fault LoopSpec := do
  let (item, key, iterable) := parts captured
  match key with
  | none => pure ()
  | some key => (balanceFrom .code [] key).mapError .loopKey
  (balanceFrom .code [] (iterable.getD [])).mapError .loopIterable
  return { item := String.ofList (item.getD []), key := key.map String.ofList,
           iterable := String.ofList (iterable.getD []) }

/-- Directives are read as by the search, faults included. -/
theorem readLoop_searched (text : String) :
    readLoop text = match search directivePattern (trimChars text.toList) with
      | none => .error .loopShape
      | some captured => readCaptured captured := by
  have same := search_split text.toList
  unfold readLoop
  cases found : search directivePattern (trimChars text.toList) with
  | none =>
    rw [found, Option.map_none, eq_comm, Option.map_eq_none_iff] at same
    rw [same]
  | some captured =>
    rw [found, Option.map_some, eq_comm, Option.map_eq_some_iff] at same
    obtain ⟨⟨item, key, iterable⟩, split, read⟩ := same
    cases key with
    | none => simp only [split, readCaptured, ← read, Option.map_none, Option.getD_some]
    | some key => simp only [split, readCaptured, ← read, Option.map_some, Option.getD_some]

/-- The first of two blanks is the key, unless there is another one. -/
example : search directivePattern "a,  in b".toList =
      some [(.item, "a".toList), (.key, " ".toList), (.iterable, "b".toList)] ∧
    search directivePattern "a,  in b in c".toList =
      some [(.item, "a".toList), (.key, "in b".toList), (.iterable, "c".toList)] := by decide +kernel

end Stencil.Proofs.LoopSearch
