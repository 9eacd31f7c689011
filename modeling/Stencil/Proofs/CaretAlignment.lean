import Stencil.Proofs.ShownFaults

/-! Excerpts line up. An excerpt has the lines around the one in question, as far as the source has them, and one row
for the caret directly below that line. A number takes four columns, or as many as it needs, while as much as four
columns is left free in front of the caret; so the caret stands below its column, and tabs below the tabs of the text,
while the number of the line has four digits at most. Each digit more moves the text by one, but not the caret. -/

namespace Stencil.Proofs.CaretAlignment
open ShownFaults

/-- The lines of a source from one number to another, as far as the source has them. -/
def linesBetween (source : String) (first last : Nat) : List (Nat × String) :=
  numberedFrom (max 1 first) (((Text.lines source).take last).drop (first - 1))

private theorem numberedFrom_nil (first : Nat) : numberedFrom first [] = [] := rfl

private theorem numberedFrom_cons (first : Nat) (line : String) (lines : List String) :
    numberedFrom first (line :: lines) = (first, line) :: numberedFrom (first + 1) lines := rfl

private theorem window_slice (line first : Nat) (lines : List String) :
    window line first lines = numberedFrom (max first (line - Excerpt.margin))
      ((lines.take (line + Excerpt.margin + 1 - first)).drop (line - Excerpt.margin - first)) := by
  unfold window
  generalize high : line + Excerpt.margin = last
  generalize low : line - Excerpt.margin = start
  induction lines generalizing first with
  | nil => simp [numberedFrom_nil]
  | cons text rest ih =>
    have shown : isNear line (first, text) = (decide (start ≤ first) && decide (first ≤ last)) := by
      rw [isNear, low, high]
    rw [numberedFrom_cons, List.filter_cons, shown, ih]
    rcases Nat.lt_or_ge first start with before | inside
    · obtain ⟨skipped, same⟩ : ∃ skipped, start - first = skipped + 1 := ⟨start - first - 1, by omega⟩
      have still : start - (first + 1) = skipped := by omega
      rw [decide_eq_false (by omega), Bool.false_and, if_neg (by simp), same, still, max_eq_right before,
        max_eq_right (Nat.le_of_lt before)]
      rcases Nat.lt_or_ge last first with none | some
      · rw [show last + 1 - first = 0 by omega, show last + 1 - (first + 1) = 0 by omega]
        simp [numberedFrom_nil]
      · rw [show last + 1 - first = last + 1 - (first + 1) + 1 by omega, List.take_succ_cons, List.drop_succ_cons]
    · rw [decide_eq_true inside, Bool.true_and, show start - first = 0 by omega, show start - (first + 1) = 0 by omega,
        max_eq_left inside, max_eq_left (Nat.le_succ_of_le inside), List.drop_zero, List.drop_zero]
      rcases Nat.lt_or_ge last first with behind | within
      · rw [decide_eq_false (by omega), if_neg (by simp), show last + 1 - first = 0 by omega,
          show last + 1 - (first + 1) = 0 by omega]
        simp [numberedFrom_nil]
      · rw [decide_eq_true within, if_pos rfl, show last + 1 - first = last + 1 - (first + 1) + 1 by omega,
          List.take_succ_cons, numberedFrom_cons]

private theorem around_slices {source text : String} {line : Nat} (column : Nat) (positive : 1 ≤ line)
    (found : (Text.lines source)[line - 1]? = some text) :
    rowsOf (Excerpt.around source line column).render =
      plainRows (linesBetween source (line - 2) (line - 1)) ++ numberedRow line text :: caretRow column text ::
        (plainRows (linesBetween source (line + 1) (line + 2)) ++ [[]]) := by
  obtain ⟨inside, rfl⟩ := List.getElem?_eq_some_iff.mp found
  have lines : Text.lines source =
      (Text.lines source).take (line - 1) ++ (Text.lines source)[line - 1] :: (Text.lines source).drop (line - 1 + 1) := by
    rw [List.getElem_cons_drop, List.take_append_drop]
  have number : ((Text.lines source).take (line - 1)).length + 1 = line := by
    rw [List.length_take]
    omega
  have rows := (around_rows column lines).2
  rw [number] at rows
  rw [rows]
  have above : window line 1 ((Text.lines source).take (line - 1)) = linesBetween source (line - 2) (line - 1) := by
    rw [window_slice, linesBetween, List.take_take, Excerpt.margin, min_eq_right (by omega),
      show line - 2 - 1 = line - 2 - 1 from rfl]
  have below : window line (line + 1) ((Text.lines source).drop (line - 1 + 1)) =
      linesBetween source (line + 1) (line + 2) := by
    rw [window_slice, linesBetween, Excerpt.margin, Nat.sub_add_cancel positive, Nat.add_sub_cancel, List.take_drop,
      show line - 2 - (line + 1) = 0 by omega, List.drop_zero, max_eq_left (by omega), max_eq_right (by omega),
      show line + (line + 2 + 1 - (line + 1)) = line + 2 by omega]
  rw [above, below]

/-- What stands in a row in front of the text. -/
def rowFront (number : Nat) : List Char := Excerpt.gutter number ++ " | ".toList

/-- The caret stands this much to the left of the column of the text above it, and so do the tabs in front of it. -/
structure LinedUp (shift column : Nat) (front text caret : List Char) : Prop where
  pointed : ∀ offset, caret[offset]? = some '^' ↔ offset + shift = front.length + (column - 1)
  tabbed : ∀ before < column - 1, text[before]? = some '\t' →
    ∃ offset, offset + shift = front.length + before ∧ caret[offset]? = some '\t'

/-- How many digits a number has more than four. -/
def excess (number : Nat) : Nat := (Nat.toDigits 10 number).length - 4

theorem excess_eq_zero {number : Nat} : excess number = 0 ↔ number < 10000 := by
  have digits := @Nat.length_toDigits_le_iff 10 number 4 (by omega) (by omega)
  rw [excess]
  omega

private theorem rowFront_length (number : Nat) : (rowFront number).length = 7 + excess number := by
  have width : (Excerpt.gutter number).length = 4 - (Nat.toDigits 10 number).length + (Nat.toDigits 10 number).length := by
    simp [Excerpt.gutter]
  have bar : " | ".toList.length = 3 := rfl
  rw [rowFront, List.length_append, width, bar, excess]
  omega

private theorem last_only {front : List Char} {c : Char} (absent : c ∉ front) (offset : Nat) :
    (front ++ [c])[offset]? = some c ↔ offset = front.length := by
  constructor
  · intro found
    rcases Nat.lt_trichotomy offset front.length with inside | same | behind
    · rw [List.getElem?_append_left inside] at found
      exact absurd (List.mem_of_getElem? found) absent
    · exact same
    · rw [List.getElem?_eq_none (by simpa using behind)] at found
      cases found
  · rintro rfl
    simp

private theorem padding_tab {column before : Nat} {text : String} (inside : before < column - 1)
    (tab : text.toList[before]? = some '\t') : (Excerpt.padding column text)[before]? = some '\t' := by
  have shown : (text.toList.take (column - 1))[before]? = some '\t' := by rwa [List.getElem?_take_of_lt inside]
  have short : before < (text.toList.take (column - 1)).length := (List.getElem?_eq_some_iff.mp shown).1
  rw [Excerpt.padding, List.getElem?_append_left (by rwa [List.length_map]), List.getElem?_map, shown]
  rfl

private theorem linedUp_of {margin padding front text : List Char} {shift column : Nat} (free : '^' ∉ margin)
    (length : padding.length = column - 1) (blank : ∀ c ∈ padding, c = ' ' ∨ c = '\t')
    (kept : ∀ before < column - 1, text[before]? = some '\t' → padding[before]? = some '\t')
    (width : margin.length + shift = front.length) : LinedUp shift column front text (margin ++ padding ++ ['^']) where
  pointed offset := by
    have absent : '^' ∉ margin ++ padding := by
      intro member
      rcases List.mem_append.mp member with first | filled
      · exact free first
      · simpa using blank _ filled
    rw [last_only absent, List.length_append, length]
    omega
  tabbed before inside tab := by
    have short : before < padding.length := by omega
    refine ⟨margin.length + before, by omega, ?_⟩
    rw [List.append_assoc, List.getElem?_append_right (Nat.le_add_right _ _), Nat.add_sub_cancel_left,
      List.getElem?_append_left short]
    exact kept before inside tab

private theorem caretRow_linedUp (line column : Nat) (text : String) :
    LinedUp (excess line) column (rowFront line) text.toList (caretRow column text) := by
  have margin : "     | ".toList.length = 7 := rfl
  exact linedUp_of (by decide) (padding_length column text) (padding_blank column text)
    (fun _ inside tab => padding_tab inside tab) (by rw [margin, rowFront_length])

/-- The excerpt around a line of the source has the lines up to two above and below it, in order and as far as there are
such lines, and directly below the line a row with the caret. The caret and the tabs before it stand below their columns,
but for the digits that the number of the line has more than four. -/
theorem around_lines_up (source : String) (line column : Nat) (positive : 1 ≤ line)
    (present : line ≤ (Text.lines source).length) :
    ∃ text caret, (Text.lines source)[line - 1]? = some text ∧
      rowsOf (Excerpt.around source line column).render =
        plainRows (linesBetween source (line - 2) (line - 1)) ++ (rowFront line ++ text.toList) :: caret ::
          (plainRows (linesBetween source (line + 1) (line + 2)) ++ [[]]) ∧
      LinedUp (excess line) column (rowFront line) text.toList caret ∧ (excess line = 0 ↔ line < 10000) := by
  have found := List.getElem?_eq_getElem (l := Text.lines source) (i := line - 1) (by omega)
  exact ⟨_, _, found, around_slices column positive found, caretRow_linedUp line column _, excess_eq_zero⟩

/-- A column behind the end of a line with tabs and with a character of more than one byte. -/
theorem around_lines_up_tabbed :
    let source := "<ul>\n\té\t<li>\r\n</ul>\n"
    1 ≤ 2 ∧ 2 ≤ (Text.lines source).length ∧
      ∃ caret, rowsOf (Excerpt.around source 2 12).render =
          ["   1 | <ul>".toList, "   2 | \té\t<li>".toList, caret, "   3 | </ul>".toList, []] ∧
        LinedUp 0 12 "   2 | ".toList "\té\t<li>".toList caret := by
  intro source
  have lines : Text.lines source = ["<ul>", "\té\t<li>", "</ul>"] := by decide +kernel
  refine ⟨by decide, by rw [lines]; decide, ?_⟩
  obtain ⟨text, caret, found, rows, linedUp, straight⟩ :=
    around_lines_up source 2 12 (by decide) (by rw [lines]; decide)
  rw [lines] at found
  cases found
  rw [straight.mpr (by decide)] at linedUp
  have above : plainRows (linesBetween source 0 1) = ["   1 | <ul>".toList] := by
    rw [linesBetween, lines]
    decide +kernel
  have below : plainRows (linesBetween source 3 4) = ["   3 | </ul>".toList] := by
    rw [linesBetween, lines]
    decide +kernel
  rw [above, below] at rows
  exact ⟨caret, rows, linedUp⟩

private theorem linesFrom_feeds (count : Nat) (rest : List Char) :
    Text.linesFrom [] (List.replicate count '\n' ++ rest) = List.replicate count [] ++ Text.linesFrom [] rest := by
  induction count with
  | zero => rfl
  | succ count ih => simp [List.replicate_succ, Text.linesFrom, ih]

private theorem feeds_shown {count : Nat} (some : 2 ≤ count) :
    let source := String.ofList (List.replicate count '\n' ++ ['x'])
    (Text.lines source).length = count + 1 ∧
      rowsOf (Excerpt.around source (count + 1) 1).render =
        [numberedRow (count - 1) "", numberedRow count "", numberedRow (count + 1) "x", caretRow 1 "x", []] := by
  intro source
  have lines : Text.lines source = List.replicate count "" ++ ["x"] := by
    rw [Text.lines, String.toList_ofList, linesFrom_feeds, List.map_append, List.map_replicate]
    rfl
  have length : (Text.lines source).length = count + 1 := by simp [lines]
  have found : (Text.lines source)[count + 1 - 1]? = Option.some "x" := by simp [lines]
  have above : linesBetween source (count - 1) count = [(count - 1, ""), (count, "")] := by
    rw [linesBetween, lines, List.take_left' (by simp), List.drop_replicate, max_eq_right (by omega),
      show count - (count - 1 - 1) = 2 by omega, List.replicate, List.replicate, List.replicate, numberedFrom_cons,
      numberedFrom_cons, numberedFrom_nil, Nat.sub_add_cancel (by omega)]
  have below : linesBetween source (count + 2) (count + 3) = [] := by
    rw [linesBetween, List.drop_eq_nil_of_le (by rw [List.length_take, length]; omega), numberedFrom_nil]
  have rows := around_slices 1 (by omega) found
  rw [show count + 1 - 2 = count - 1 by omega, Nat.add_sub_cancel, above, below] at rows
  exact ⟨length, rows⟩

/-- The number of the ten thousandth line takes five columns, and its caret stands one column too far to the left. -/
theorem five_digits_out_of_line :
    let source := String.ofList (List.replicate 9999 '\n' ++ ['x'])
    1 ≤ 10000 ∧ 10000 ≤ (Text.lines source).length ∧
      rowsOf (Excerpt.around source 10000 1).render =
        ["9998 | ".toList, "9999 | ".toList, "10000 | ".toList ++ ['x'], "     | ^".toList, []] ∧
      ¬ LinedUp 0 1 "10000 | ".toList ['x'] "     | ^".toList := by
  intro source
  obtain ⟨length, rows⟩ := @feeds_shown 9999 (by decide)
  refine ⟨by decide, Nat.le_of_eq length.symm, ?_, ?_⟩
  · rw [rows]
    decide +kernel
  · intro linedUp
    exact absurd ((linedUp.pointed 7).mp (by decide)) (by decide)

end Stencil.Proofs.CaretAlignment
