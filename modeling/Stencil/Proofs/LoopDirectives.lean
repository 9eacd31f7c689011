import Stencil.Proofs.LoopSearch
import Stencil.Proofs.TemplateInvariant
import Stencil.Render.Generate

/-! The parts of a loop directive. Whatever directive is accepted, its item is an identifier, its
iterable and its key are trimmed and balanced, and its text is these parts with blanks between them. The
iterable is never empty. The key is, where nothing but blanks stands between the comma and the word `in`
and there are two of them at least: the first one is taken for the key, and then trimmed away. -/

namespace Stencil.Proofs.LoopDirectives
open Directive BalancedCode LoopSearch TemplateInvariant TemplateReading
open Text (isBlank trim trimChars)

def Blank (chars : List Char) : Prop := ∀ c ∈ chars, isBlank c = true

/-- Blanks, of which there is one at least. -/
structure Gap (chars : List Char) : Prop where
  nonempty : chars ≠ []
  blank : Blank chars

/-- Text that starts and ends with something else. -/
structure Solid (chars : List Char) : Prop where
  front : ∃ c rest, chars = c :: rest ∧ isBlank c = false
  back : ∃ rest c, chars = rest ++ [c] ∧ isBlank c = false

private theorem Solid.nonempty {chars : List Char} (solid : Solid chars) : chars ≠ [] := by
  obtain ⟨c, rest, rfl, _⟩ := solid.front
  exact List.cons_ne_nil c rest

theorem Solid.trimmed {chars : List Char} (solid : Solid chars) : trimChars chars = chars := by
  obtain ⟨first, behind, front, visible⟩ := solid.front
  obtain ⟨before, last, back, visible'⟩ := solid.back
  change (chars.dropWhile isBlank).rdropWhile isBlank = chars
  have kept : chars.dropWhile isBlank = chars := by
    rw [front]
    exact List.dropWhile_cons_of_neg (by simp [visible])
  rw [kept, back]
  exact List.rdropWhile_concat_neg _ _ _ (by simp [visible'])

private theorem trimChars_blank {chars : List Char} (blank : Blank chars) : trimChars chars = [] := by
  change (chars.dropWhile isBlank).rdropWhile isBlank = []
  rw [List.dropWhile_eq_nil_iff.mpr blank, List.rdropWhile_nil]

private theorem blank_takeWhile (chars : List Char) : Blank (chars.takeWhile isBlank) :=
  fun _ member => List.mem_takeWhile_imp member

theorem dropWhile_blanks {front : List Char} (blank : Blank front) {c : Char} (visible : isBlank c = false)
    (rest : List Char) : (front ++ c :: rest).dropWhile isBlank = c :: rest := by
  rw [List.dropWhile_append_of_pos blank, List.dropWhile_cons_of_neg (by simp [visible])]

/-- Blanks, the word `in`, and blanks again. -/
inductive Word : List Char → Prop where
  | mk {front behind : List Char} (before : Gap front) (after : Gap behind) : Word (front ++ 'i' :: 'n' :: behind)

theorem afterIn_splits {chars iterable : List Char} (found : afterIn? chars = some iterable) :
    ∃ word, Word word ∧ chars = word ++ iterable ∧ ∃ c rest, iterable = c :: rest ∧ isBlank c = false := by
  unfold afterIn? at found
  split at found
  next => cases found
  next c rest =>
    split at found
    next blank =>
      split at found
      next d tail dropped =>
        split at found
        next blank' =>
          split at found
          next => cases found
          next nonempty =>
            cases found
            have before : Gap (c :: rest.takeWhile isBlank) :=
              ⟨List.cons_ne_nil _ _, List.forall_mem_cons.mpr ⟨blank, blank_takeWhile rest⟩⟩
            have after : Gap (d :: tail.takeWhile isBlank) :=
              ⟨List.cons_ne_nil _ _, List.forall_mem_cons.mpr ⟨blank', blank_takeWhile tail⟩⟩
            refine ⟨_, .mk before after, ?_, ?_⟩
            · rw [List.append_assoc, List.cons_append, List.cons_append, List.cons_append, List.cons_append,
                List.takeWhile_append_dropWhile, ← dropped, List.takeWhile_append_dropWhile]
            · cases behind : tail.dropWhile isBlank with
              | nil => exact absurd behind nonempty
              | cons first later => exact ⟨first, later, rfl, dropWhile_visible behind⟩
        next => cases found
      next => cases found
    next => cases found

private theorem keyAndIterable_splits {chars key iterable : List Char}
    (found : keyAndIterable? chars = some (key, iterable)) :
    ∃ behind, chars = key ++ behind ∧ afterIn? behind = some iterable ∧
      ∃ rest c, key = rest ++ [c] ∧ isBlank c = false := by
  induction chars generalizing key with
  | nil => cases found
  | cons c chars ih =>
    unfold keyAndIterable? at found
    split at found
    next own here =>
      cases found
      split at here
      next => cases here
      next visible => exact ⟨chars, rfl, here, [], c, rfl, by simpa using visible⟩
    next =>
      obtain ⟨⟨key', iterable'⟩, later, same⟩ := Option.map_eq_some_iff.mp found
      cases same
      obtain ⟨behind, rfl, word, rest, last, rfl, visible⟩ := ih later
      exact ⟨behind, rfl, word, c :: rest, last, rfl, visible⟩

private theorem keyAfterComma_splits {behind key iterable : List Char}
    (found : keyAfterComma? behind = some (key, iterable)) :
    ∃ gap rest, behind = gap ++ (key ++ rest) ∧ afterIn? rest = some iterable ∧
      (Blank gap ∧ Solid key ∨ gap = [] ∧ Gap key) := by
  unfold keyAfterComma? at found
  split at found
  next split =>
    cases found
    obtain ⟨rest, same, word, back⟩ := keyAndIterable_splits split
    refine ⟨behind.takeWhile isBlank, rest, ?_, word, .inl ⟨blank_takeWhile behind, ?_, back⟩⟩
    · rw [← same, List.takeWhile_append_dropWhile]
    · obtain ⟨front, last, rfl, _⟩ := back
      cases front with
      | nil => exact ⟨last, [], rfl, dropWhile_visible same⟩
      | cons c front => exact ⟨c, front ++ [last], rfl, dropWhile_visible same⟩
  next =>
    split at found
    next => cases found
    next c rest _ =>
      split at found
      next blank =>
        obtain ⟨own, word, same⟩ := Option.map_eq_some_iff.mp found
        cases same
        exact ⟨[], rest, rfl, word, .inr ⟨rfl, by simp, by simpa [Blank] using blank⟩⟩
      next => cases found

/-- How text is split into an item, a key and an iterable. -/
private inductive Splits (item iterable : List Char) : Option (List Char) → List Char → Prop where
  | keyless {word} (shape : Word word) : Splits item iterable none (item ++ (word ++ iterable))
  | keyed {before gap key word} (blank : Blank before) (blank' : Blank gap) (solid : Solid key) (shape : Word word) :
      Splits item iterable (some key) (item ++ (before ++ ',' :: (gap ++ (key ++ (word ++ iterable)))))
  | blankKey {before key word} (blank : Blank before) (gap : Gap key) (shape : Word word) :
      Splits item iterable (some key) (item ++ (before ++ ',' :: (key ++ (word ++ iterable))))

private theorem splitLoop_splits {chars item iterable : List Char} {key : Option (List Char)}
    (split : splitLoop? chars = some (item, key, iterable)) :
    Splits item iterable key chars ∧ ∃ c rest, iterable = c :: rest ∧ isBlank c = false := by
  unfold splitLoop? at split
  simp only at split
  split at split
  next =>
    have parts := List.takeWhile_append_dropWhile (p := continuesIdentifier) (l := chars)
    generalize chars.takeWhile continuesIdentifier = front at split parts
    generalize chars.dropWhile continuesIdentifier = tail at split parts
    subst parts
    split at split
    next behind dropped =>
      obtain ⟨⟨own, rest⟩, found, same⟩ := Option.map_eq_some_iff.mp split
      cases same
      obtain ⟨gap, rest, rfl, word, kind⟩ := keyAfterComma_splits found
      obtain ⟨word, shape, rfl, visible⟩ := afterIn_splits word
      refine ⟨?_, visible⟩
      rw [← List.takeWhile_append_dropWhile (p := isBlank) (l := tail), dropped]
      rcases kind with ⟨blank, solid⟩ | ⟨rfl, blank⟩
      · exact .keyed (blank_takeWhile tail) blank solid shape
      · exact .blankKey (blank_takeWhile tail) blank shape
    next =>
      obtain ⟨_, found, same⟩ := Option.map_eq_some_iff.mp split
      cases same
      obtain ⟨word, shape, rfl, visible⟩ := afterIn_splits found
      exact ⟨.keyless shape, visible⟩
  next => cases split

/-- The text of a directive, put together from its parts. -/
inductive Written (item : List Char) : Option (List Char) → List Char → List Char → Prop where
  | keyless {word iterable} (shape : Word word) : Written item none iterable (item ++ (word ++ iterable))
  | keyed {before gap key word iterable} (blank : Blank before) (blank' : Blank gap) (shape : Word word) :
      Written item (some key) iterable (item ++ (before ++ ',' :: (gap ++ (key ++ (word ++ iterable)))))

/-- A comma with nothing but blanks, two at least, between it and the word `in`. -/
inductive Unkeyed (item iterable : List Char) : List Char → Prop where
  | mk {before gap behind} (blank : Blank before) (blank' : Blank gap) (two : 2 ≤ gap.length) (after : Gap behind) :
      Unkeyed item iterable (item ++ (before ++ ',' :: (gap ++ ('i' :: 'n' :: behind ++ iterable))))

private theorem Splits.iterable {item iterable chars : List Char} {key : Option (List Char)}
    (splits : Splits item iterable key chars) : ∃ front, chars = front ++ iterable := by
  cases splits with
  | @keyless word _ => exact ⟨item ++ word, by simp⟩
  | @keyed before gap key word _ _ _ _ => exact ⟨item ++ (before ++ ',' :: (gap ++ (key ++ word))), by simp⟩
  | @blankKey before key word _ _ _ => exact ⟨item ++ (before ++ ',' :: (key ++ word)), by simp⟩

private theorem Splits.solid {text item iterable : List Char} {key : Option (List Char)}
    (splits : Splits item iterable key (trimChars text))
    (first : ∃ c rest, iterable = c :: rest ∧ isBlank c = false) : Solid iterable := by
  refine ⟨first, ?_⟩
  obtain ⟨front, same⟩ := splits.iterable
  rcases List.eq_nil_or_concat' iterable with rfl | ⟨before, last, rfl⟩
  · obtain ⟨c, rest, empty, _⟩ := first
    cases empty
  · rw [← List.append_assoc] at same
    exact ⟨before, last, rfl, trimChars_back same⟩

private theorem Splits.written {item iterable chars : List Char} {key : Option (List Char)}
    (splits : Splits item iterable key chars) : Written item (key.map trimChars) iterable chars := by
  cases splits with
  | keyless shape => exact .keyless shape
  | keyed blank blank' solid shape =>
    rw [Option.map_some, solid.trimmed]
    exact .keyed blank blank' shape
  | blankKey blank gap shape =>
    rw [Option.map_some, trimChars_blank gap.blank]
    exact .keyed blank gap.blank shape

private theorem Splits.unkeyed {item iterable chars : List Char} {key : Option (List Char)}
    (splits : Splits item iterable key chars) (empty : key.map trimChars = some []) : Unkeyed item iterable chars := by
  cases splits with
  | keyless shape => cases empty
  | keyed blank blank' solid shape =>
    rw [Option.map_some, solid.trimmed] at empty
    exact absurd (Option.some.inj empty) solid.nonempty
  | @blankKey before key word blank gap shape =>
    obtain @⟨front, behind, before', after⟩ := shape
    have between : Blank (key ++ front) := List.forall_mem_append.mpr ⟨gap.blank, before'.blank⟩
    have two : 2 ≤ (key ++ front).length := by
      have first := List.length_pos_of_ne_nil gap.nonempty
      have second := List.length_pos_of_ne_nil before'.nonempty
      rw [List.length_append]
      omega
    have unkeyed : Unkeyed item iterable _ := .mk blank between two after
    simpa using unkeyed

/-- What is left of text without its blanks. -/
private def visible (chars : List Char) : List Char := chars.filter (!isBlank ·)

private theorem visible_append (first second : List Char) : visible (first ++ second) = visible first ++ visible second :=
  List.filter_append first second

private theorem visible_blank {chars : List Char} : visible chars = [] ↔ Blank chars := by simp [visible, Blank]

private theorem visible_word {front behind : List Char} (before : Blank front) (after : Blank behind) :
    visible (front ++ 'i' :: 'n' :: behind) = ['i', 'n'] := by
  have letters : visible ('i' :: 'n' :: behind) = 'i' :: 'n' :: visible behind := rfl
  rw [visible_append, letters, visible_blank.mpr before, visible_blank.mpr after, List.nil_append]

private theorem Written.blank_key {item iterable chars : List Char} {key : Option (List Char)}
    (written : Written item key iterable chars) (unkeyed : Unkeyed item iterable chars) :
    ∃ blanks, key = some blanks ∧ Blank blanks := by
  obtain @⟨before, gap, behind, blank, blank', _, after⟩ := unkeyed
  generalize same : item ++ (before ++ ',' :: (gap ++ ('i' :: 'n' :: behind ++ iterable))) = chars at written
  cases written with
  | keyless shape =>
    obtain @⟨front, behind', before', _⟩ := shape
    have tails : before ++ ',' :: (gap ++ ('i' :: 'n' :: behind ++ iterable)) =
        front ++ 'i' :: ('n' :: behind' ++ iterable) := by simpa using same
    have heads := congrArg (List.dropWhile isBlank) tails
    rw [dropWhile_blanks blank (by decide), dropWhile_blanks before'.blank (by decide)] at heads
    cases heads
  | @keyed before' gap' key word _ other blanks shape =>
    obtain @⟨front, behind', front', after'⟩ := shape
    have tails := congrArg (List.dropWhile isBlank) (List.append_cancel_left same)
    rw [dropWhile_blanks blank (by decide), dropWhile_blanks other (by decide)] at tails
    have between : gap ++ 'i' :: 'n' :: behind ++ iterable =
        gap' ++ (key ++ (front ++ 'i' :: 'n' :: behind')) ++ iterable := by simpa using (List.cons.inj tails).2
    have letters := congrArg visible (List.append_cancel_right between)
    rw [visible_word blank' after.blank, visible_append, visible_append, visible_blank.mpr blanks,
      visible_word front'.blank after'.blank] at letters
    exact ⟨key, rfl, visible_blank.mp (by simpa using letters)⟩

private theorem overItems_operand (spec : LoopSpec) (token : String) (body : List Action) :
    ∃ statement, .write statement ∈ overItems token spec body ∧ ∃ operand, statement.source =
      "var $key = " ++ Text.quoted (token ++ "_") ++ " + " ++ operand ∧ (operand = "" ↔ spec.key = some "") := by
  refine ⟨.bindKey token spec.key, by simp [overItems], _, Statement.source_bindKey token spec.key, ?_⟩
  cases spec.key with
  | none => simp
  | some key => simp

private theorem splitLoop_found {text item iterable : List Char} {key : Option (List Char)}
    (split : splitLoop? (trimChars text) = some (item, key, iterable)) :
    ∃ captured, search directivePattern (trimChars text) = some captured ∧
      parts captured = (some item, key.map trimChars, some (trimChars iterable)) := by
  have same := search_split text
  rw [split, Option.map_some, Option.map_eq_some_iff] at same
  exact same

/-- What holds of the parts of a directive. They are the ones that the search finds, and can all be used,
except for a key that is empty: it leaves the line that binds the key without a right operand. -/
structure Usable (text : String) (spec : LoopSpec) : Prop where
  item : isIdentifier spec.item = true
  iterable : ProperExpression spec.iterable
  iterable_nonempty : spec.iterable ≠ ""
  key : ∀ key ∈ spec.key, ProperExpression key
  key_empty : spec.key = some "" ↔ Unkeyed spec.item.toList spec.iterable.toList (trim text).toList
  operand : ∀ token body, ∃ statement, .write statement ∈ overItems token spec body ∧ ∃ operand, statement.source =
    "var $key = " ++ Text.quoted (token ++ "_") ++ " + " ++ operand ∧ (operand = "" ↔ spec.key = some "")
  written : Written spec.item.toList (spec.key.map String.toList) spec.iterable.toList (trim text).toList
  searched : ∃ captured, search directivePattern (trim text).toList = some captured ∧
    parts captured = (some spec.item.toList, spec.key.map String.toList, some spec.iterable.toList)

/-- Every directive that is accepted is split into such parts. -/
theorem readLoop_usable (text : String) (spec : LoopSpec) (read : readLoop text = .ok spec) : Usable text spec := by
  have proper := readLoop_proper read
  obtain ⟨item, key, iterable, split, rfl⟩ := readLoop_parts read
  obtain ⟨splits, first⟩ := splitLoop_splits split
  have solid : Solid iterable := splits.solid first
  have written := splits.written
  have keys : key.map (fun chars => String.ofList (trimChars chars)) = some "" ↔ key.map trimChars = some [] := by
    cases key <;> simp
  refine
    { item := proper.item
      iterable := proper.iterable
      iterable_nonempty := by simpa [solid.trimmed] using solid.nonempty
      key := proper.key
      key_empty := keys.trans ⟨fun empty => ?_, fun unkeyed => ?_⟩
      operand := overItems_operand _
      written := ?_
      searched := ?_ }
  · simpa [trim, solid.trimmed] using splits.unkeyed empty
  · have spelled : Unkeyed item iterable (trimChars text.toList) := by simpa [trim, solid.trimmed] using unkeyed
    obtain ⟨blanks, same, blank⟩ := written.blank_key spelled
    obtain ⟨chars, rfl, rfl⟩ := Option.map_eq_some_iff.mp same
    have twice : trimChars (trimChars chars) = trimChars chars := by
      simpa [trim] using congrArg String.toList (trim_trimChars chars)
    rw [Option.map_some, ← twice, trimChars_blank blank]
  · simpa [trim, solid.trimmed, Function.comp_def] using written
  · simpa [trim, Function.comp_def] using splitLoop_found split

theorem readLoop_usable_keyed :
    readLoop " row ,key(row, 1)  in rows.filter(x in f)" =
        .ok ⟨"row", some "key(row, 1)", "rows.filter(x in f)"⟩ ∧
      Usable " row ,key(row, 1)  in rows.filter(x in f)" ⟨"row", some "key(row, 1)", "rows.filter(x in f)"⟩ := by
  have read : readLoop " row ,key(row, 1)  in rows.filter(x in f)" =
      .ok ⟨"row", some "key(row, 1)", "rows.filter(x in f)"⟩ := by decide +kernel
  exact ⟨read, readLoop_usable _ _ read⟩

/-- An empty key is accepted, and its line ends behind the operator. -/
theorem blank_key_accepted :
    readLoop "a,  in b" = .ok ⟨"a", some "", "b"⟩ ∧
      "    var $key = \"k_\" + " ∈ (generate "k" .empty [.loop ⟨"a", some "", "b"⟩ [] .none]).1 := by
  refine ⟨?_, ?_⟩ <;> decide +kernel

end Stencil.Proofs.LoopDirectives
