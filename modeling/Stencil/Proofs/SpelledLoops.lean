import Stencil.Proofs.LoopDirectives

/-! Loop directives are read back as they were written, whatever blanks stand between their parts. A key
may hold commas and blanks, and words that start with `in`; only the word by itself would end it. The
iterable may hold that word too, since the first one counts. -/

namespace Stencil.Proofs.SpelledLoops
open Directive BalancedCode LoopDirectives LoopSearch TemplateInvariant TemplateReading
open Text (isBlank isBlankText trim trimChars)

/-- Text with nothing in it but blanks. -/
abbrev Blanks : Type := { gap : String // isBlankText gap = true }

/-- The blanks of a directive, by where they stand. The word `in` needs some on both sides. -/
structure Spacing where
  lead : Blanks
  beforeComma : Blanks
  behindComma : Blanks
  beforeWord : Blanks
  behindWord : Blanks
  trail : Blanks
  apart : beforeWord.val ≠ "" ∧ behindWord.val ≠ ""

namespace Spacing

def keyless (spacing : Spacing) (item iterable : String) : String :=
  spacing.lead.val ++ item ++ spacing.beforeWord.val ++ "in" ++ spacing.behindWord.val ++ iterable ++ spacing.trail.val

def keyed (spacing : Spacing) (item key iterable : String) : String :=
  spacing.lead.val ++ item ++ spacing.beforeComma.val ++ "," ++ spacing.behindComma.val ++ key ++
    spacing.beforeWord.val ++ "in" ++ spacing.behindWord.val ++ iterable ++ spacing.trail.val

end Spacing

/-- An expression that can be written in a directive and found again. -/
structure Operand (expression : String) : Prop extends ProperExpression expression where
  nonempty : expression ≠ ""

/-- A blank and the word `in`, with a blank or nothing behind it. -/
def startsWord : List Char → Bool
  | blank :: 'i' :: 'n' :: behind => isBlank blank && behind.head?.all isBlank
  | _ => false

/-- No part of a key can be taken for the word behind it. -/
def Unbroken (key : List Char) : Prop := ∀ tail ∈ key.tails, startsWord tail = false

instance (key : List Char) : Decidable (Unbroken key) := inferInstanceAs (Decidable (∀ tail ∈ key.tails, _))

private theorem solid_of_trimmed {chars : List Char} (trimmed : trimChars chars = chars) (nonempty : chars ≠ []) :
    Solid chars := by
  constructor
  · cases chars with
    | nil => exact absurd rfl nonempty
    | cons c rest =>
      refine ⟨c, rest, rfl, ?_⟩
      by_contra blank
      have dropped : (c :: rest).dropWhile isBlank = rest.dropWhile isBlank :=
        List.dropWhile_cons_of_pos (by simpa using blank)
      have inside : trimChars (c :: rest) <:+: rest := by
        change ((c :: rest).dropWhile isBlank).rdropWhile isBlank <:+: rest
        rw [dropped]
        exact (List.rdropWhile_prefix isBlank _).isInfix.trans (List.dropWhile_suffix isBlank).isInfix
      have shorter := inside.length_le
      rw [trimmed, List.length_cons] at shorter
      omega
  · rcases List.eq_nil_or_concat' chars with rfl | ⟨front, last, rfl⟩
    · exact absurd rfl nonempty
    · exact ⟨front, last, rfl, trimChars_back trimmed⟩

private theorem trimChars_between {front chars back : List Char} (before : Blank front) (solid : Solid chars)
    (after : Blank back) : trimChars (front ++ (chars ++ back)) = chars := by
  have first : (front ++ (chars ++ back)).dropWhile isBlank = chars ++ back := by
    obtain ⟨c, rest, rfl, visible⟩ := solid.front
    exact dropWhile_blanks before visible (rest ++ back)
  obtain ⟨rest, c, rfl, visible⟩ := solid.back
  unfold trimChars
  rw [first, List.reverse_append, List.reverse_append, List.reverse_singleton, List.singleton_append,
    dropWhile_blanks (by simpa [Blank] using after) visible]
  simp

private theorem blanks_endIdentifier {front rest : List Char} (blank : Blank front)
    (ends : ∀ c ∈ rest.head?, continuesIdentifier c = false) :
    ∀ c ∈ (front ++ rest).head?, continuesIdentifier c = false := by
  cases front with
  | nil => exact ends
  | cons d front =>
    have first := blank_endsIdentifier (blank d (by simp))
    simpa using first

private theorem identifier_taken {item rest : List Char} (identifier : isIdentifierChars item = true)
    (ends : ∀ c ∈ rest.head?, continuesIdentifier c = false) :
    (item ++ rest).takeWhile continuesIdentifier = item ∧ (item ++ rest).dropWhile continuesIdentifier = rest := by
  have inside := continues_of_identifier identifier
  have stops : rest.takeWhile continuesIdentifier = [] ∧ rest.dropWhile continuesIdentifier = rest := by
    cases rest with
    | nil => exact ⟨rfl, rfl⟩
    | cons c rest => simp [ends c rfl]
  rw [List.takeWhile_append_of_pos inside, List.dropWhile_append_of_pos inside, stops.1, stops.2, List.append_nil]
  exact ⟨rfl, rfl⟩

private theorem afterIn_word {word iterable : List Char} (shape : Word word) (solid : Solid iterable) :
    afterIn? (word ++ iterable) = some iterable := by
  obtain @⟨front, behind, before, after⟩ := shape
  obtain ⟨first, later, rfl, visible⟩ := solid.front
  cases front with
  | nil => exact absurd rfl before.nonempty
  | cons c front =>
    cases behind with
    | nil => exact absurd rfl after.nonempty
    | cons d behind =>
      obtain ⟨blank, others⟩ := List.forall_mem_cons.mp before.blank
      obtain ⟨blank', others'⟩ := List.forall_mem_cons.mp after.blank
      have dropped := dropWhile_blanks others (by decide : isBlank 'i' = false) ('n' :: d :: (behind ++ first :: later))
      have dropped' := dropWhile_blanks others' visible later
      simp [afterIn?, blank, blank', dropped, dropped']

/-- Text that ends with something else than a blank. -/
private def Ended (chars : List Char) : Prop := ∃ c, chars.getLast? = some c ∧ isBlank c = false

private theorem Ended.tail {c d : Char} {rest : List Char} (ended : Ended (c :: d :: rest)) : Ended (d :: rest) := by
  simpa only [Ended, List.getLast?_cons_cons] using ended

private theorem Unbroken.tail {c : Char} {rest : List Char} (unbroken : Unbroken (c :: rest)) : Unbroken rest := by
  intro tail member
  apply unbroken
  rw [List.mem_tails] at member ⊢
  exact member.trans (List.suffix_cons c rest)

/-- Where the letters of the word start in front of a blank, they stand there with a blank or nothing behind them. -/
private theorem word_inside {more behind gap iterable : List Char} {blank : Char} (after : Gap gap)
    (stops : isBlank blank = true) (same : 'i' :: 'n' :: gap ++ iterable = more ++ blank :: behind) :
    ∃ rest, more = 'i' :: 'n' :: rest ∧ rest.head?.all isBlank = true := by
  match more with
  | [] => cases same; cases stops
  | [_] => cases same; cases stops
  | _ :: _ :: rest =>
    simp only [List.cons_append, List.cons.injEq] at same
    obtain ⟨rfl, rfl, same⟩ := same
    refine ⟨rest, rfl, ?_⟩
    cases rest with
    | nil => rfl
    | cons d _ =>
      obtain ⟨e, others, rfl⟩ := List.exists_cons_of_ne_nil after.nonempty
      cases (List.cons.inj same).1
      exact after.blank d (by simp)

private theorem afterIn_key {key behind : List Char} {blank : Char}
    (ended : Ended key) (unbroken : Unbroken key) (stops : isBlank blank = true) :
    afterIn? (key ++ blank :: behind) = none := by
  rw [Option.eq_none_iff_forall_ne_some]
  intro iterable found
  obtain ⟨_, @⟨front, gap, before, after⟩, same, _⟩ := afterIn_splits found
  rw [List.append_assoc] at same
  obtain ⟨last, ending, visible⟩ := ended
  obtain ⟨rest, rfl⟩ := List.getLast?_eq_some_iff.mp ending
  rcases List.append_eq_append_iff.mp same with ⟨more, longer, _⟩ | ⟨more, longer, later⟩
  · have among : last ∈ front := by simp [longer]
    simp [before.blank last among] at visible
  · obtain ⟨front', c, rfl⟩ : ∃ front' c, front = front' ++ [c] := by
      rcases List.eq_nil_or_concat' front with rfl | split
      · exact absurd rfl before.nonempty
      · exact split
    obtain ⟨behind', rfl, ends⟩ := word_inside after stops later
    have tail : c :: 'i' :: 'n' :: behind' ∈ (rest ++ [last]).tails := by
      rw [List.mem_tails, longer, List.append_assoc]
      exact List.suffix_append front' _
    have blank' : isBlank c = true := before.blank c (by simp)
    have unstarted := unbroken _ tail
    simp [startsWord, blank', ends] at unstarted

private theorem keyAndIterable_word {key word iterable : List Char} (ended : Ended key)
    (unbroken : Unbroken key) (shape : Word word) (solid : Solid iterable) :
    keyAndIterable? (key ++ (word ++ iterable)) = some (key, iterable) := by
  induction key with
  | nil =>
    obtain ⟨c, ending, _⟩ := ended
    cases ending
  | cons c key ih =>
    cases key with
    | nil =>
      have visible : isBlank c = false := by simpa [Ended] using ended
      have found : (if isBlank c then none else afterIn? (word ++ iterable)) = some iterable := by
        rw [visible, if_neg Bool.false_ne_true, afterIn_word shape solid]
      unfold keyAndIterable?
      simp only [List.cons_append, List.nil_append, found]
    | cons d key =>
      have later := ih ended.tail unbroken.tail
      have absent : afterIn? (d :: key ++ (word ++ iterable)) = none := by
        obtain @⟨front, behind, before, _⟩ := shape
        obtain ⟨blank, front, rfl⟩ := List.exists_cons_of_ne_nil before.nonempty
        exact afterIn_key ended.tail unbroken.tail (before.blank blank (by simp))
      unfold keyAndIterable?
      simp only [List.cons_append] at later absent ⊢
      simp only [absent, later, ite_self, Option.map_some]

private theorem keyAfterComma_word {gap key word iterable : List Char} (blank : Blank gap) (solid : Solid key)
    (unbroken : Unbroken key) (shape : Word word) (solid' : Solid iterable) :
    keyAfterComma? (gap ++ (key ++ (word ++ iterable))) = some (key, iterable) := by
  have ended : Ended key := by
    obtain ⟨rest, c, rfl, visible⟩ := solid.back
    exact ⟨c, List.getLast?_concat .., visible⟩
  have dropped : (gap ++ (key ++ (word ++ iterable))).dropWhile isBlank = key ++ (word ++ iterable) := by
    obtain ⟨c, rest, rfl, visible⟩ := solid.front
    exact dropWhile_blanks blank visible _
  unfold keyAfterComma?
  rw [dropped, keyAndIterable_word ended unbroken shape solid']

private theorem splitLoop_written {item iterable chars : List Char} {key : Option (List Char)}
    (written : Written item key iterable chars) (identifier : isIdentifierChars item = true)
    (solid : ∀ key' ∈ key, Solid key' ∧ Unbroken key') (solid' : Solid iterable) :
    splitLoop? chars = some (item, key, iterable) := by
  cases written with
  | @keyless word _ shape =>
    have found := afterIn_word shape solid'
    obtain @⟨front, behind, before, after⟩ := shape
    have dropped : (front ++ 'i' :: 'n' :: behind ++ iterable).dropWhile isBlank = 'i' :: 'n' :: (behind ++ iterable) := by
      rw [List.append_assoc]
      exact dropWhile_blanks before.blank (by decide) _
    have ends : ∀ c ∈ (front ++ 'i' :: 'n' :: behind ++ iterable).head?, continuesIdentifier c = false := by
      obtain ⟨blank, front, rfl⟩ := List.exists_cons_of_ne_nil before.nonempty
      have first := blank_endsIdentifier (before.blank blank (by simp))
      simpa using first
    obtain ⟨taken, left⟩ := identifier_taken identifier ends
    unfold splitLoop?
    simp only [taken, left, identifier, ite_true, dropped]
    rw [found]
    rfl
  | @keyed before gap key word _ blank blank' shape =>
    obtain ⟨solidKey, unbroken⟩ := solid key rfl
    have found := keyAfterComma_word blank' solidKey unbroken shape solid'
    have dropped := dropWhile_blanks blank (by decide : isBlank ',' = false) (gap ++ (key ++ (word ++ iterable)))
    have ends : ∀ c ∈ (before ++ ',' :: (gap ++ (key ++ (word ++ iterable)))).head?, continuesIdentifier c = false :=
      blanks_endIdentifier blank (by simpa using (by decide : continuesIdentifier ',' = false))
    obtain ⟨taken, left⟩ := identifier_taken identifier ends
    unfold splitLoop?
    simp only [taken, left, identifier, ite_true, dropped]
    rw [found, Option.map_some]

private theorem Operand.solid {expression : String} (operand : Operand expression) : Solid expression.toList := by
  apply solid_of_trimmed
  · simpa [trim] using congrArg String.toList operand.trimmed
  · simpa using operand.nonempty

private theorem written_ends {item iterable chars : List Char} {key : Option (List Char)}
    (written : Written item key iterable chars) : ∃ between, chars = item ++ (between ++ iterable) := by
  cases written with
  | @keyless word _ _ => exact ⟨word, rfl⟩
  | @keyed before gap key word _ _ _ _ => exact ⟨before ++ ',' :: (gap ++ (key ++ word)), by simp⟩

/-- A directive starts with its item and ends with its iterable, so it is not to be trimmed any further. -/
private theorem written_solid {item iterable chars : List Char} {key : Option (List Char)}
    (written : Written item key iterable chars) (identifier : isIdentifierChars item = true) (solid : Solid iterable) :
    Solid chars := by
  obtain ⟨between, rfl⟩ := written_ends written
  constructor
  · cases item with
    | nil => cases identifier
    | cons c item =>
      refine ⟨c, item ++ (between ++ iterable), rfl, ?_⟩
      have continues := continues_of_identifier identifier c (by simp)
      by_contra blank
      rw [blank_endsIdentifier (by simpa using blank)] at continues
      cases continues
  · obtain ⟨rest, c, rfl, visible⟩ := solid.back
    exact ⟨item ++ (between ++ rest), c, by simp, visible⟩

private theorem readLoop_written {text item iterable : String} {key : Option String} {lead trail chars : List Char}
    (spelled : text.toList = lead ++ (chars ++ trail)) (blank : Blank lead) (blank' : Blank trail)
    (written : Written item.toList (key.map String.toList) iterable.toList chars)
    (identifier : isIdentifier item = true) (operand : ∀ key' ∈ key, Operand key' ∧ Unbroken key'.toList)
    (operand' : Operand iterable) : readLoop text = .ok ⟨item, key, iterable⟩ := by
  have trimmed : trimChars text.toList = chars := by
    rw [spelled]
    exact trimChars_between blank (written_solid written identifier operand'.solid) blank'
  have split : splitLoop? (trimChars text.toList) = some (item.toList, key.map String.toList, iterable.toList) := by
    rw [trimmed]
    apply splitLoop_written written identifier _ operand'.solid
    intro chars member
    obtain ⟨key', own, rfl⟩ := Option.map_eq_some_iff.mp member
    exact ⟨(operand key' own).1.solid, (operand key' own).2⟩
  have balanced' : balanceFrom .code [] (trimChars iterable.toList) = .ok () := by
    rw [operand'.solid.trimmed]
    exact operand'.balanced
  unfold readLoop
  rw [split]
  cases key with
  | none =>
    refine bind_ok.mpr ⟨(), mapError_ok.mpr balanced', ?_⟩
    simp [operand'.solid.trimmed, pure, Except.pure]
  | some key =>
    have own := (operand key rfl).1
    have balanced : balanceFrom .code [] (trimChars key.toList) = .ok () := by
      rw [own.solid.trimmed]
      exact own.balanced
    refine bind_ok.mpr ⟨(), mapError_ok.mpr balanced, bind_ok.mpr ⟨(), mapError_ok.mpr balanced', ?_⟩⟩
    simp [operand'.solid.trimmed, own.solid.trimmed, pure, Except.pure]

theorem readLoop_keyless {item iterable : String} (identifier : isIdentifier item = true) (operand : Operand iterable) :
    readLoop (item ++ " in " ++ iterable) = .ok ⟨item, none, iterable⟩ := by
  have gap : Gap [' '] := ⟨by decide, by simpa [Blank] using (by decide : isBlank ' ' = true)⟩
  have word : Word ([' '] ++ 'i' :: 'n' :: [' ']) := .mk gap gap
  have spelled : (item ++ " in " ++ iterable).toList =
      [] ++ (item.toList ++ ([' '] ++ 'i' :: 'n' :: [' '] ++ iterable.toList) ++ []) := by simp
  exact readLoop_written spelled (by simp [Blank]) (by simp [Blank]) (.keyless word) identifier (by simp) operand

private theorem Blanks.blank (gap : Blanks) : Blank gap.val.toList := by
  simpa [isBlankText, Blank] using gap.property

private theorem Spacing.word (spacing : Spacing) :
    Word (spacing.beforeWord.val.toList ++ 'i' :: 'n' :: spacing.behindWord.val.toList) := by
  refine .mk ⟨?_, Blanks.blank _⟩ ⟨?_, Blanks.blank _⟩
  · simpa using spacing.apart.1
  · simpa using spacing.apart.2

/-- Whatever blanks a directive is written with, its parts are read back, with a key and without one. -/
theorem readLoop_spelled (spacing : Spacing) (item iterable : String) (identifier : isIdentifier item = true)
    (operand : Operand iterable) :
    readLoop (spacing.keyless item iterable) = .ok ⟨item, none, iterable⟩ ∧
      ∀ key, Operand key → Unbroken key.toList →
        readLoop (spacing.keyed item key iterable) = .ok ⟨item, some key, iterable⟩ := by
  have lead := Blanks.blank spacing.lead
  have trail := Blanks.blank spacing.trail
  constructor
  · apply readLoop_written _ lead trail (.keyless spacing.word) identifier (by simp) operand
    simp [Spacing.keyless]
  · intro key operand' unbroken
    have before := Blanks.blank spacing.beforeComma
    have behind := Blanks.blank spacing.behindComma
    apply readLoop_written _ lead trail (.keyed before behind spacing.word) identifier _ operand
    · simp [Spacing.keyed]
    · intro key' same
      cases same
      exact ⟨operand', unbroken⟩

/-- A key that starts with the word, and holds a comma and a longer word behind a blank. -/
theorem readLoop_spelled_worded :
    readLoop "\nrow\x0bin\u2003rows.filter(x in f) " = .ok ⟨"row", none, "rows.filter(x in f)"⟩ ∧
      readLoop "\nrow\u00a0,\tin(row, 1) instanceof x\x0bin\u2003rows.filter(x in f) " =
        .ok ⟨"row", some "in(row, 1) instanceof x", "rows.filter(x in f)"⟩ := by
  have spelled := readLoop_spelled
    ⟨⟨"\n", by decide⟩, ⟨"\u00a0", by decide⟩, ⟨"\t", by decide⟩, ⟨"\x0b", by decide⟩, ⟨"\u2003", by decide⟩,
      ⟨" ", by decide⟩, by decide⟩
    "row" "rows.filter(x in f)" (by decide) ⟨⟨by decide, by decide⟩, by decide⟩
  exact ⟨spelled.1, spelled.2 "in(row, 1) instanceof x" ⟨⟨by decide, by decide⟩, by decide⟩ (by decide)⟩

end Stencil.Proofs.SpelledLoops
