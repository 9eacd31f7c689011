import Stencil.Proofs.LiteralScanning
import Stencil.Proofs.Literals

/-! Continued literals can be undone. With the quotes removed, each space, backslash and line feed turned
into a line feed, and the escapes resolved after that, the text is what it was. A script that holds the
literal sees nearly the same text: the literal ends where it was meant to, and its value has a space for
each line feed. -/

namespace Stencil.Proofs.RestoredText
open Text Literals LiteralScanning

/-- A line feed for each space, backslash and line feed. -/
def joined : List Char → List Char
  | ' ' :: '\\' :: '\n' :: rest => '\n' :: joined rest
  | c :: rest => c :: joined rest
  | [] => []

/-- The escapes without their backslashes. Only the letter `r` stands for another character than itself. -/
def resolved : List Char → List Char
  | '\\' :: 'r' :: rest => '\r' :: resolved rest
  | '\\' :: c :: rest => c :: resolved rest
  | ['\\'] => []
  | c :: rest => c :: resolved rest
  | [] => []

private theorem continuedChar_kept {c : Char} (kept : c ∉ ['\\', '"', '\r', '\n']) : continuedChar c = [c] := by
  simp only [List.mem_cons, List.not_mem_nil, or_false, not_or] at kept
  unfold continuedChar
  rw [if_neg kept.1, if_neg kept.2.1, if_neg kept.2.2.1, if_neg kept.2.2.2]

/-- A backslash in front of a line feed is never the start of what a character is written as. -/
private theorem continued_start {chars rest : List Char} : chars.flatMap continuedChar ≠ '\\' :: '\n' :: rest := by
  cases chars with
  | nil => simp
  | cons c chars =>
    intro same
    rw [List.flatMap_cons] at same
    by_cases kept : c ∈ ['\\', '"', '\r', '\n']
    · simp only [List.mem_cons, List.not_mem_nil, or_false] at kept
      rcases kept with rfl | rfl | rfl | rfl <;> simp [continuedChar] at same
    · rw [continuedChar_kept kept] at same
      exact kept ((List.cons.inj same).1 ▸ (by simp))

private theorem joined_other {c : Char} {rest : List Char} (other : ∀ tail, c = ' ' → rest ≠ '\\' :: '\n' :: tail) :
    joined (c :: rest) = c :: joined rest := by
  rw [joined]
  intro tail space same
  exact other tail space same

private theorem resolved_other {c : Char} {rest : List Char} (other : c ≠ '\\') :
    resolved (c :: rest) = c :: resolved rest := by
  cases rest <;> simp [resolved, other]

/-- How a character is written where line feeds are written as they are. -/
private def escapedChar (c : Char) : List Char := if c = '\n' then ['\n'] else continuedChar c

private theorem escapedChar_kept {c : Char} (kept : c ∉ ['\\', '"', '\r', '\n']) : escapedChar c = [c] := by
  have other : c ≠ '\n' := by
    rintro rfl
    exact kept (by decide)
  rw [escapedChar, if_neg other, continuedChar_kept kept]

private theorem joined_continuedChar (c : Char) (chars : List Char) :
    joined (continuedChar c ++ chars.flatMap continuedChar) = escapedChar c ++ joined (chars.flatMap continuedChar) := by
  by_cases kept : c ∈ ['\\', '"', '\r', '\n']
  · simp only [List.mem_cons, List.not_mem_nil, or_false] at kept
    rcases kept with rfl | rfl | rfl | rfl <;> rfl
  · rw [continuedChar_kept kept, escapedChar_kept kept]
    exact joined_other fun tail _ => continued_start

private theorem joined_flatMap (chars : List Char) :
    joined (chars.flatMap continuedChar) = chars.flatMap escapedChar := by
  induction chars with
  | nil => rfl
  | cons c chars ih => rw [List.flatMap_cons, joined_continuedChar, ih, List.flatMap_cons]

private theorem resolved_escapedChar (c : Char) (rest : List Char) :
    resolved (escapedChar c ++ rest) = c :: resolved rest := by
  by_cases kept : c ∈ ['\\', '"', '\r', '\n']
  · simp only [List.mem_cons, List.not_mem_nil, or_false] at kept
    rcases kept with rfl | rfl | rfl | rfl <;> rfl
  · rw [escapedChar_kept kept, List.singleton_append, resolved_other]
    rintro rfl
    exact kept (by decide)

private theorem resolved_flatMap (chars : List Char) : resolved (chars.flatMap escapedChar) = chars := by
  induction chars with
  | nil => rfl
  | cons c chars ih => rw [List.flatMap_cons, resolved_escapedChar, ih]

private theorem restored (text : String) : resolved (joined (text.toList.flatMap continuedChar)) = text.toList := by
  rw [joined_flatMap, resolved_flatMap]

theorem continued_injective {first second : String} (same : continued first = continued second) : first = second := by
  have chars : first.toList.flatMap continuedChar = second.toList.flatMap continuedChar := by
    simpa [continued, continuedChars] using congrArg String.toList same
  apply String.toList_inj.mp
  rw [← restored first, chars, restored]

/-- What a script reads for a character of the text: a space for a line feed. -/
def spaced (c : Char) : Char := if c = '\n' then ' ' else c

private theorem reads_continuedChar (c : Char) : Reads script (continuedChar c) [spaced c] := by
  unfold continuedChar
  split_ifs with backslash quote carriageReturn lineFeed
  · subst backslash
    exact reads_escape fun _ => rfl
  · subst quote
    exact reads_escape fun _ => rfl
  · subst carriageReturn
    exact reads_escape fun _ => rfl
  · subst lineFeed
    have space : Reads script [' '] [' '] := reads_plain rfl (by decide) (by decide)
    have continuation : Reads script ['\\', '\n'] [] := reads_escape fun _ => rfl
    exact space.append continuation
  · have same : spaced c = c := if_neg lineFeed
    rw [same]
    exact reads_plain (by simp [script, lineFeed, carriageReturn]) quote backslash

private theorem literal_continued (text : String) (rest : List Char) :
    literal? script ((continued text).toList ++ rest) = some (String.ofList (text.toList.map spaced), rest) := by
  have read := (reads_flatMap reads_continuedChar text.toList).literal rest
  rw [← List.map_eq_flatMap] at read
  simpa [continued, continuedChars] using read

/-- The text of a continued literal can be told from it, both by undoing what was done to the text and by
scanning the literal, whatever stands behind it. -/
theorem continued_restores (text : String) :
    (∃ inner, (continued text).toList = '"' :: (inner ++ ['"']) ∧ resolved (joined inner) = text.toList) ∧
      ∀ rest, literal? script ((continued text).toList ++ rest) =
        some (String.ofList (text.toList.map spaced), rest) := by
  refine ⟨⟨text.toList.flatMap continuedChar, ?_, restored text⟩, literal_continued text⟩
  simp [continued, continuedChars]

end Stencil.Proofs.RestoredText
