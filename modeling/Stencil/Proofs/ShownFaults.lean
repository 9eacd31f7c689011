import Stencil.Proofs.FaultPlaces

/-! Faults of markup are shown in their source. The excerpt has the line of the fault with a caret below the
column, and no other caret. Only a fault behind the last line feed of a source has no line to be shown on,
since nothing of the source is behind that line feed: there the excerpt ends with the lines before it. -/

namespace Stencil.Proofs.ShownFaults
open Markup Template TemplateReading FaultPlaces

def rowsOf (text : String) : List (List Char) := text.toList.splitOn '\n'

/-- A row that points at a column: as many blanks or tabs as columns stand before it, and the caret. -/
def PointsAt (column : Nat) (row : List Char) : Prop :=
  ∃ padding, padding.length = column - 1 ∧ (∀ c ∈ padding, c = ' ' ∨ c = '\t') ∧
    row = "     | ".toList ++ padding ++ ['^']

def IsCaretRow (row : List Char) : Prop := ∃ column, PointsAt column row

def numberedRow (number : Nat) (text : String) : List Char := Excerpt.gutter number ++ " | ".toList ++ text.toList

private theorem splitOn_append (first second : List Char) :
    (first ++ '\n' :: second).splitOn '\n' = first.splitOn '\n' ++ second.splitOn '\n' := by
  induction first with
  | nil => simp [splitOn_feed]
  | cons c first ih =>
    by_cases feed : c = '\n'
    · subst feed
      simp [splitOn_feed, ih]
    · obtain ⟨row, rows, split⟩ := List.exists_cons_of_ne_nil (List.splitOn_ne_nil '\n' first)
      simp [splitOn_other _ feed, ih, split]

private theorem splitOn_plain {row : List Char} (plain : '\n' ∉ row) : row.splitOn '\n' = [row] := by
  induction row with
  | nil => rfl
  | cons c row ih =>
    simp only [List.mem_cons, not_or] at plain
    rw [splitOn_other _ (Ne.symm plain.1), ih plain.2]
    rfl

/-- Rows that end in a line feed each are read back, with an empty row behind the last line feed. -/
private theorem splitOn_ended {rows : List (List Char)} (plain : ∀ row ∈ rows, '\n' ∉ row) :
    (rows.flatMap (· ++ ['\n'])).splitOn '\n' = rows ++ [[]] := by
  induction rows with
  | nil => rfl
  | cons row rows ih =>
    simp only [List.mem_cons, forall_eq_or_imp] at plain
    rw [List.flatMap_cons, List.append_assoc, List.singleton_append, splitOn_append, splitOn_plain plain.1, ih plain.2]
    rfl

private theorem linesFrom_plain {current : List Char} (chars : List Char) (plain : '\n' ∉ current) :
    ∀ line ∈ Text.linesFrom current chars, '\n' ∉ line := by
  induction chars generalizing current with
  | nil =>
    intro line member
    simp only [Text.linesFrom] at member
    split at member
    next => cases member
    next => simpa [List.mem_singleton.mp member] using plain
  | cons c rest ih =>
    simp only [Text.linesFrom]
    split
    next =>
      rw [List.forall_mem_cons]
      refine ⟨?_, ih (by simp)⟩
      split
      next kept =>
        simp only [List.mem_cons, not_or] at plain
        simpa using plain.2
      next => simpa using plain
    next other => exact ih (by simpa using ⟨Ne.symm other, plain⟩)

/-- A line for every line feed, and one more for what is behind the last one, if anything is. -/
private theorem linesFrom_length {current : List Char} (chars : List Char) (plain : '\n' ∉ current) :
    (Text.linesFrom current chars).length =
      chars.count '\n' + ((current.reverse ++ chars).getLast?.any (· ≠ '\n')).toNat := by
  induction chars generalizing current with
  | nil =>
    cases current with
    | nil => rfl
    | cons c current =>
      simp only [List.mem_cons, not_or] at plain
      simp [Text.linesFrom, Ne.symm plain.1]
  | cons c rest ih =>
    by_cases feed : c = '\n'
    · subst feed
      have last : (current.reverse ++ '\n' :: rest).getLast?.any (· ≠ '\n') = rest.getLast?.any (· ≠ '\n') := by
        cases rest with
        | nil => simp
        | cons d rest => simp [List.getLast?_cons]
      have behind := @ih [] (by simp)
      simp only [List.reverse_nil, List.nil_append] at behind
      simp only [Text.linesFrom, if_true, List.length_cons, behind, List.count_cons_self, last]
      omega
    · have both : '\n' ∉ c :: current := by simpa using ⟨Ne.symm feed, plain⟩
      simp only [Text.linesFrom, feed, if_false, ih both, List.count_cons_of_ne feed]
      simp

/-- The line of this number is missing although the source has a position on it: the source ends with the line
feed before it. -/
def EndsBefore (source : String) (line : Nat) : Prop :=
  source.toList.getLast? = some '\n' ∧ line = 1 + source.toList.count '\n'

private theorem lines_length (source : String) :
    (Text.lines source).length = source.toList.count '\n' + (source.toList.getLast?.any (· ≠ '\n')).toNat := by
  simpa [Text.lines] using @linesFrom_length [] source.toList (by simp)

private theorem lines_plain {source text : String} (member : text ∈ Text.lines source) : '\n' ∉ text.toList := by
  obtain ⟨line, inside, rfl⟩ := List.mem_map.mp member
  simpa using linesFrom_plain source.toList (by simp) line inside

/-- Lines with their numbers, from a number on. -/
def numberedFrom (first : Nat) (lines : List String) : List (Nat × String) :=
  (lines.zipIdx first).map fun (text, number) => (number, text)

private theorem numberedFrom_number {first : Nat} {lines : List String} {entry : Nat × String}
    (member : entry ∈ numberedFrom first lines) : first ≤ entry.1 ∧ entry.1 < first + lines.length ∧ entry.2 ∈ lines := by
  obtain ⟨⟨text, number⟩, inside, rfl⟩ := List.mem_map.mp member
  obtain ⟨low, high, same⟩ := List.mem_zipIdx inside
  exact ⟨low, high, same ▸ List.getElem_mem _⟩

private theorem numbered_splits {source text : String} {before after : List String} (lines : Text.lines source = before ++ text :: after) :
    Excerpt.numbered source =
      numberedFrom 1 before ++ (before.length + 1, text) :: numberedFrom (before.length + 2) after := by
  unfold Excerpt.numbered numberedFrom
  rw [lines, List.zipIdx_append, List.map_append, List.zipIdx_cons, List.map_cons]
  simp only [Nat.add_comm 1, Nat.add_assoc]

def caretRow (column : Nat) (text : String) : List Char := "     | ".toList ++ Excerpt.padding column text ++ ['^']

theorem padding_length (column : Nat) (text : String) : (Excerpt.padding column text).length = column - 1 := by
  have short := List.length_take_le (column - 1) text.toList
  simp only [Excerpt.padding, List.length_append, List.length_map, List.length_replicate]
  omega

theorem padding_blank (column : Nat) (text : String) : ∀ c ∈ Excerpt.padding column text, c = ' ' ∨ c = '\t' := by
  intro c member
  rcases List.mem_append.mp member with shown | filled
  · obtain ⟨d, _, rfl⟩ := List.mem_map.mp shown
    split
    · exact Or.inr rfl
    · exact Or.inl rfl
  · exact Or.inl (List.eq_of_mem_replicate filled)

private theorem caretRow_pointsAt (column : Nat) (text : String) : PointsAt column (caretRow column text) :=
  ⟨_, padding_length column text, padding_blank column text, rfl⟩

/-- A number starts within the first four columns. -/
private theorem gutter_starts (number : Nat) :
    ∃ blanks digit rest, Excerpt.gutter number = List.replicate blanks ' ' ++ digit :: rest ∧ blanks < 4 ∧
      digit.isDigit = true := by
  obtain ⟨digit, rest, digits⟩ := List.exists_cons_of_ne_nil (@Nat.toDigits_ne_nil number 10)
  have first : digit.isDigit = true :=
    Nat.isDigit_of_mem_toDigits (b := 10) (by decide) (by decide) (digits ▸ List.mem_cons_self)
  refine ⟨4 - (digit :: rest).length, digit, rest, ?_, ?_, first⟩
  · simp [Excerpt.gutter, digits]
  · rw [List.length_cons]
    omega

/-- A numbered row has a digit where a caret row has blanks. -/
private theorem numberedRow_no_caret (number : Nat) (text : String) : ¬ IsCaretRow (numberedRow number text) := by
  rintro ⟨column, padding, _, _, same⟩
  obtain ⟨blanks, digit, rest, gutter, short, isDigit⟩ := gutter_starts number
  have left : (numberedRow number text)[blanks]? = some digit := by simp [numberedRow, gutter]
  have right : (numberedRow number text)[blanks]? = some ' ' := by
    rw [same]
    match blanks, short with
    | 0, _ => rfl
    | 1, _ => rfl
    | 2, _ => rfl
    | 3, _ => rfl
  rw [left] at right
  cases right
  cases isDigit

private theorem empty_no_caret : ¬ IsCaretRow [] := by
  rintro ⟨column, padding, _, _, same⟩
  exact absurd (congrArg List.length same) (by simp)

private theorem not_feed_of_digit {c : Char} (digit : c.isDigit = true) : c ≠ '\n' := by
  rintro rfl
  cases digit

private theorem digits_plain (number : Nat) : '\n' ∉ Nat.toDigits 10 number := fun member =>
  not_feed_of_digit (Nat.isDigit_of_mem_toDigits (by decide) (by decide) member) rfl

private theorem numberedRow_plain (number : Nat) {text : String} (plain : '\n' ∉ text.toList) :
    '\n' ∉ numberedRow number text := by
  simp [numberedRow, Excerpt.gutter, digits_plain, plain]

private theorem caretRow_plain (column : Nat) (text : String) : '\n' ∉ caretRow column text := by
  obtain ⟨padding, _, blank, same⟩ := caretRow_pointsAt column text
  rw [same]
  have filled : '\n' ∉ padding := fun member => by simpa using blank _ member
  simp [filled]

private theorem row_toList (number : Nat) (text : String) :
    (Excerpt.row number text).toList = numberedRow number text ++ ['\n'] := by
  simp [Excerpt.row, numberedRow]

private theorem caretRow_toList (column : Nat) (text : String) :
    (Excerpt.caretRow column text).toList = caretRow column text ++ ['\n'] := by
  unfold Excerpt.caretRow caretRow
  generalize "     | " = margin
  simp

private theorem rowsOf_join {rows : List String} {bodies : List (List Char)}
    (same : rows.map String.toList = bodies.map (· ++ ['\n'])) (plain : ∀ body ∈ bodies, '\n' ∉ body) :
    rowsOf (String.join rows) = bodies ++ [[]] := by
  rw [rowsOf, String.toList_join, List.flatMap_def, same, ← List.flatMap_def]
  exact splitOn_ended plain

private theorem mem_around {source : String} {line column : Nat} {entry : Nat × String}
    (member : entry ∈ (Excerpt.around source line column).lines) : entry ∈ Excerpt.numbered source :=
  (List.mem_filter.mp member).1

private theorem numbered_plain {source : String} {entry : Nat × String} (member : entry ∈ Excerpt.numbered source) :
    '\n' ∉ entry.2.toList :=
  lines_plain (numberedFrom_number member).2.2

def plainRows (entries : List (Nat × String)) : List (List Char) :=
  entries.map fun entry => numberedRow entry.1 entry.2

private theorem plainRows_no_caret (entries : List (Nat × String)) :
    ∀ row ∈ plainRows entries ++ [[]], ¬ IsCaretRow row := by
  intro row member
  rcases List.mem_append.mp member with numbered | last
  · obtain ⟨entry, _, rfl⟩ := List.mem_map.mp numbered
    exact numberedRow_no_caret _ _
  · rw [List.mem_singleton.mp last]
    exact empty_no_caret

private theorem plainRows_plain {entries : List (Nat × String)} (plain : ∀ entry ∈ entries, '\n' ∉ entry.2.toList) :
    ∀ row ∈ plainRows entries, '\n' ∉ row := by
  intro row member
  obtain ⟨entry, inside, rfl⟩ := List.mem_map.mp member
  exact numberedRow_plain _ (plain entry inside)

/-- Lines other than the one in question have no caret. -/
private theorem rows_others {line column : Nat} {entries : List (Nat × String)} (others : ∀ entry ∈ entries, entry.1 ≠ line) :
    (Excerpt.rows ⟨entries, line, column⟩).map String.toList = (plainRows entries).map (· ++ ['\n']) := by
  unfold Excerpt.rows plainRows
  induction entries with
  | nil => rfl
  | cons entry entries ih =>
    simp only [List.mem_cons, forall_eq_or_imp] at others
    have rest := ih others.2
    simp only [List.flatMap_cons, others.1, if_false, List.map_append, rest, List.map_cons, List.map_nil, row_toList]
    rfl

private theorem rowsOf_others {line column : Nat} {entries : List (Nat × String)} (others : ∀ entry ∈ entries, entry.1 ≠ line)
    (plain : ∀ entry ∈ entries, '\n' ∉ entry.2.toList) :
    rowsOf (Excerpt.render ⟨entries, line, column⟩) = plainRows entries ++ [[]] :=
  rowsOf_join (rows_others others) (plainRows_plain plain)

private theorem rowsOf_shown {above below : List (Nat × String)} {line column : Nat} {text : String}
    (othersAbove : ∀ entry ∈ above, entry.1 ≠ line) (othersBelow : ∀ entry ∈ below, entry.1 ≠ line)
    (plain : ∀ entry ∈ above ++ (line, text) :: below, '\n' ∉ entry.2.toList) :
    rowsOf (Excerpt.render ⟨above ++ (line, text) :: below, line, column⟩) =
      plainRows above ++ numberedRow line text :: caretRow column text :: (plainRows below ++ [[]]) := by
  have rows : (Excerpt.rows ⟨above ++ (line, text) :: below, line, column⟩).map String.toList =
      (plainRows above ++ numberedRow line text :: caretRow column text :: plainRows below).map (· ++ ['\n']) := by
    have split : Excerpt.rows ⟨above ++ (line, text) :: below, line, column⟩ = Excerpt.rows ⟨above, line, column⟩ ++
        Excerpt.row line text :: Excerpt.caretRow column text :: Excerpt.rows ⟨below, line, column⟩ := by
      simp [Excerpt.rows]
    rw [split, List.map_append, rows_others othersAbove]
    simp [rows_others othersBelow, row_toList, caretRow_toList]
  simp only [List.forall_mem_append, List.forall_mem_cons] at plain
  rw [Excerpt.render, rowsOf_join rows]
  · simp
  · simp only [List.forall_mem_append, List.forall_mem_cons]
    exact ⟨plainRows_plain plain.1, numberedRow_plain line plain.2.1, caretRow_plain column text, plainRows_plain plain.2.2⟩

/-- The rows show a line, directly below it the only caret row, and the caret at the column. -/
def Pointed (rows : List (List Char)) (line column : Nat) (text : String) : Prop :=
  ∃ above caret below, rows = above ++ numberedRow line text :: caret :: below ∧ PointsAt column caret ∧
    ∀ row ∈ above ++ below, ¬ IsCaretRow row

/-- The excerpt around a line shows this one. -/
def isNear (line : Nat) (entry : Nat × String) : Bool :=
  decide (line - Excerpt.margin ≤ entry.1) && decide (entry.1 ≤ line + Excerpt.margin)

/-- Those of the lines, numbered from a number on, that an excerpt around a line shows. -/
def window (line first : Nat) (lines : List String) : List (Nat × String) :=
  (numberedFrom first lines).filter (isNear line)

/-- The window around a line leaves a part of the lines above it and a part of those below it. -/
theorem around_rows {source text : String} {before after : List String} (column : Nat)
    (lines : Text.lines source = before ++ text :: after) :
    let line := before.length + 1
    let shown := Excerpt.around source line column
    shown.lines = window line 1 before ++ (line, text) :: window line (line + 1) after ∧
      rowsOf shown.render = plainRows (window line 1 before) ++ numberedRow line text :: caretRow column text ::
        (plainRows (window line (line + 1) after) ++ [[]]) := by
  intro line shown
  have inside : isNear line (line, text) = true := by
    simp only [isNear, Bool.and_eq_true, decide_eq_true_eq]
    omega
  have entries : shown.lines = window line 1 before ++ (line, text) :: window line (line + 1) after := by
    change (Excerpt.numbered source).filter (isNear line) = _
    rw [numbered_splits lines, List.filter_append, List.filter_cons_of_pos inside]
    rfl
  have othersAbove : ∀ entry ∈ window line 1 before, entry.1 ≠ line := by
    intro entry member
    have number := (numberedFrom_number (List.mem_filter.mp member).1).2.1
    omega
  have othersBelow : ∀ entry ∈ window line (line + 1) after, entry.1 ≠ line := by
    intro entry member
    have number := (numberedFrom_number (List.mem_filter.mp member).1).1
    omega
  have plain : ∀ entry ∈ window line 1 before ++ (line, text) :: window line (line + 1) after, '\n' ∉ entry.2.toList := by
    rw [← entries]
    exact fun entry member => numbered_plain (mem_around member)
  refine ⟨entries, ?_⟩
  rw [← rowsOf_shown othersAbove othersBelow plain, ← entries]
  rfl

private theorem around_pointed {source text : String} {before after : List String} (column : Nat)
    (lines : Text.lines source = before ++ text :: after) :
    let shown := Excerpt.around source (before.length + 1) column
    (before.length + 1, text) ∈ shown.lines ∧ Pointed (rowsOf shown.render) (before.length + 1) column text := by
  intro shown
  obtain ⟨entries, rows⟩ := around_rows column lines
  refine ⟨by simp [shown, entries], _, _, _, rows, caretRow_pointsAt column text, ?_⟩
  intro row member
  rcases List.mem_append.mp member with member | member
  · exact plainRows_no_caret _ row (List.mem_append_left _ member)
  · exact plainRows_no_caret _ row member

/-- A line that the source does not have is not shown, and no other line has a caret. -/
private theorem around_unpointed {source : String} {line : Nat} (column : Nat) (missing : (Text.lines source).length < line) :
    let shown := Excerpt.around source line column
    line ∉ shown.lines.map Prod.fst ∧ ∀ row ∈ rowsOf shown.render, ¬ IsCaretRow row := by
  intro shown
  have others : ∀ entry ∈ shown.lines, entry.1 ≠ line := by
    intro entry member
    have number := (numberedFrom_number (mem_around member)).2.1
    omega
  refine ⟨by simpa using fun text member => others _ member rfl, ?_⟩
  have plain : ∀ entry ∈ shown.lines, '\n' ∉ entry.2.toList := fun entry member => numbered_plain (mem_around member)
  have rows : rowsOf shown.render = plainRows shown.lines ++ [[]] := rowsOf_others others plain
  rw [rows]
  exact plainRows_no_caret shown.lines

/-- The excerpt shows the line if the source has it, and points at it only then. -/
private theorem around_shows {source : String} {line : Nat} (column : Nat) (inside : Inside source line column)
    (nonempty : source.toList ≠ []) :
    let shown := Excerpt.around source line column
    (EndsBefore source line ∧ line ∉ shown.lines.map Prod.fst ∧ ∀ row ∈ rowsOf shown.render, ¬ IsCaretRow row) ∨
      ¬ EndsBefore source line ∧ ∃ text, (line, text) ∈ shown.lines ∧ Pointed (rowsOf shown.render) line column text := by
  intro shown
  have length := lines_length source
  obtain ⟨last, ends⟩ := Option.ne_none_iff_exists'.mp (mt List.getLast?_eq_none_iff.mp nonempty)
  have low := inside.line_pos
  have high := inside.line_le
  by_cases missing : EndsBefore source line
  · refine Or.inl ⟨missing, around_unpointed column ?_⟩
    rw [length, missing.1, missing.2]
    simp
  · refine Or.inr ⟨missing, ?_⟩
    have short : line - 1 < (Text.lines source).length := by
      by_cases feed : last = '\n'
      · have other : line ≠ 1 + source.toList.count '\n' := fun same => missing ⟨feed ▸ ends, same⟩
        omega
      · rw [length, ends]
        simp only [Option.any_some, ne_eq, feed, not_false_eq_true, decide_true, Bool.toNat_true]
        omega
    have lines : Text.lines source =
        (Text.lines source).take (line - 1) ++ (Text.lines source)[line - 1] :: (Text.lines source).drop (line - 1 + 1) := by
      rw [List.getElem_cons_drop, List.take_append_drop]
    have number : ((Text.lines source).take (line - 1)).length + 1 = line := by
      rw [List.length_take]
      omega
    have pointed := around_pointed column lines
    rw [number] at pointed
    exact ⟨_, pointed⟩

private theorem label_plain (label : Label) : '\n' ∉ label.wording.toList := by
  cases label <;> decide

private theorem joinLabels_plain (labels : List Label) : '\n' ∉ (joinLabels labels).toList := by
  fun_induction joinLabels labels with
  | case1 => decide
  | case2 last => exact label_plain last
  | case3 first last =>
    simp only [String.toList_append, List.mem_append, label_plain, false_or, or_false]
    decide
  | case4 first rest _ _ ih =>
    simp only [String.toList_append, List.mem_append, label_plain, ih, false_or, or_false]
    decide

private theorem quoted_plain {before after : String} {name : List Char} (ordinary : ∀ c ∈ name, endsAttributeName c = false)
    (front : '\n' ∉ before.toList) (back : '\n' ∉ after.toList) :
    '\n' ∉ (before ++ String.ofList name ++ after).toList := by
  have plain : '\n' ∉ name := fun member => absurd (ordinary _ member) (by decide)
  simp [front, plain, back]

private theorem message_plain {source : String} {fault : Markup.Fault} {line column : Nat}
    (failed : Template.read source = .error (.markup fault line column)) : '\n' ∉ fault.message.toList := by
  rcases read_fault failed with ⟨labels, _, _, _, same, _, _⟩ | ⟨_, _, _, tag, _, blames⟩
  · cases same
    cases labels with
    | nil => decide
    | cons label labels =>
      have worded : (Markup.Fault.expected (label :: labels)).message = "expected " ++ joinLabels (label :: labels) := rfl
      rw [worded, String.toList_append, List.mem_append]
      exact not_or.mpr ⟨by decide, joinLabels_plain _⟩
  · cases blames with
    | ofAttribute blamed =>
      obtain ⟨_, field, _, cause, _, offends, same, placed⟩ := blamed
      cases offends <;> cases same
      · exact quoted_plain placed.chars (by decide) (by decide)
      · exact quoted_plain placed.chars (by decide) (by decide)
      · exact quoted_plain placed.chars (by decide) (by decide)
      · decide
    | noBody => decide
    | noDirective => decide

/-- The first row of a report. -/
def headline (name : Option String) (message : String) (line column : Nat) : String :=
  "Parse error" ++ (name.map (" in " ++ ·)).getD "" ++ ": " ++ message ++ Diagnostic.location line column

private theorem headline_plain {name : Option String} {message : String} (line column : Nat)
    (plainName : ∀ given ∈ name, '\n' ∉ given.toList) (plain : '\n' ∉ message.toList) :
    '\n' ∉ (headline name message line column).toList := by
  have given : '\n' ∉ ((name.map (" in " ++ ·)).getD "").toList := by
    cases name with
    | none => decide
    | some given => simpa using plainName given rfl
  have located : '\n' ∉ (Diagnostic.location line column).toList := by
    simp [Diagnostic.location, digits_plain]
  simp [headline, given, plain, located]

/-- A headline is a row of its own unless the name of the template breaks it. -/
private theorem headline_no_caret {name : Option String} {message : String} (line column : Nat)
    (plainName : ∀ given ∈ name, '\n' ∉ given.toList) (plain : '\n' ∉ message.toList) :
    ∀ row ∈ rowsOf (headline name message line column), ¬ IsCaretRow row := by
  rw [rowsOf, splitOn_plain (headline_plain line column plainName plain)]
  intro row member
  rw [List.mem_singleton.mp member]
  rintro ⟨_, padding, _, _, same⟩
  have first := congrArg List.head? same
  simp [headline] at first

private theorem rowsOf_text (message : String) (line column : Nat) (name : Option String) (shown : Excerpt) :
    rowsOf (Diagnostic.parse message line column name (some shown)).text =
      rowsOf (headline name message line column) ++ rowsOf shown.render := by
  have text : (Diagnostic.parse message line column name (some shown)).text =
      headline name message line column ++ ("\n" ++ shown.render) := rfl
  rw [text]
  unfold rowsOf
  rw [← splitOn_append, String.toList_append, String.toList_append]
  rfl

/-- A fault of the markup of a named template is reported with an excerpt of the source. The excerpt shows the
line of the fault, and directly below it the only caret, unless the source ends with the line feed that the
fault is behind. -/
theorem readNamed_shows (source : String) (name : Option String) (error : Error) (message : String) (line column : Nat)
    (file : Option String) (excerpt : Option Excerpt) (failed : Template.readNamed source name = .error error)
    (parse : error.diagnostic = .parse message line column file excerpt) :
    ∃ shown, excerpt = some shown ∧
      rowsOf error.diagnostic.text = rowsOf (headline name message line column) ++ rowsOf shown.render ∧
      ((∀ given ∈ name, '\n' ∉ given.toList) → ∀ row ∈ rowsOf (headline name message line column), ¬ IsCaretRow row) ∧
      ((EndsBefore source line ∧ line ∉ shown.lines.map Prod.fst ∧ ∀ row ∈ rowsOf shown.render, ¬ IsCaretRow row) ∨
        ¬ EndsBefore source line ∧
          ∃ text, (line, text) ∈ shown.lines ∧ Pointed (rowsOf shown.render) line column text) := by
  unfold Template.readNamed at failed
  split at failed
  next => cases failed
  next fault unread =>
    cases failed
    cases fault with
    | directive => cases parse
    | markup fault line column =>
      cases parse
      have nonempty : source.toList ≠ [] := by
        intro none
        have same : source = "" := String.toList_eq_nil_iff.mp none
        subst same
        cases unread
      have inside : Inside source line column := by
        obtain ⟨_, _, position, inside⟩ := read_inside unread
        cases position
        exact inside
      exact ⟨_, rfl, rowsOf_text fault.message line column name _,
        fun plainName => headline_no_caret line column plainName (message_plain unread),
        around_shows column inside nonempty⟩

/-- A fault on a line with a tab, which the row of the caret keeps. -/
theorem readNamed_shows_tabbed :
    let source := "<ul>\n\t<li =>\n</ul>"
    let error := Error.template (.markup (.expected [.attribute]) 2 6) (some ⟨some "page", source⟩)
    let shown := Excerpt.around source 2 6
    Template.readNamed source (some "page") = .error error ∧ ¬ EndsBefore source 2 ∧
      ∃ text, (2, text) ∈ shown.lines ∧ Pointed (rowsOf shown.render) 2 6 text := by
  intro source error shown
  have failed : Template.readNamed source (some "page") = .error error := by decide +kernel
  obtain ⟨_, same, _, _, missing | pointed⟩ := readNamed_shows source (some "page") error "expected attribute" 2 6
    (some "page") (some shown) failed (by decide +kernel)
  · exact absurd missing.1.1 (by decide)
  · cases same
    exact ⟨failed, pointed⟩

/-- A fault behind the last line feed of a source has neither a line in the excerpt nor a caret. -/
theorem trailing_feed_unpointed :
    let source := "<div>\n"
    let error := Error.template (.markup (.expected [.text, .script, .element]) 2 1) (some ⟨some "page", source⟩)
    let shown := Excerpt.around source 2 1
    Template.readNamed source (some "page") = .error error ∧
      error.diagnostic = .parse "expected text, script or element" 2 1 (some "page") (some shown) ∧
      2 ∉ shown.lines.map Prod.fst ∧ ¬ ∃ row ∈ rowsOf error.diagnostic.text, IsCaretRow row := by
  intro source error shown
  refine ⟨by decide +kernel, by decide +kernel, by decide +kernel, ?_⟩
  rintro ⟨row, member, column, padding, _, _, same⟩
  have unmarked : ∀ row ∈ rowsOf error.diagnostic.text, '^' ∉ row := by decide +kernel
  exact unmarked row member (by simp [same])

end Stencil.Proofs.ShownFaults
