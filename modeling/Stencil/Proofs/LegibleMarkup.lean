import Stencil.Proofs.AttributeReading

/-! Markup that is read back as it is written. Besides the characters that each part may have,
legibility says what must not stand behind a piece: a text goes on to the next tag, and a void
element takes a closing tag of its own name if one follows. -/

namespace Stencil.Proofs.LegibleMarkup
open Markup Scanner ScannerReading AttributeReading

/-- Nowhere in the text does a run end. -/
def Lacks (stop : List Char → Bool) (text : List Char) : Prop := Passes stop [] text

/-- The tags of elements that may have content. -/
structure Ordinary (tag : List Char) : Prop where
  name : isTagName tag = true
  notScript : isScriptName tag = false
  notVoid : isVoidName tag = false

/-- A closing tag of this name comes next, blanks apart. -/
def Closes (tag follow : List Char) : Prop :=
  ∃ before gap rest, (∀ c ∈ before, isGap c = true) ∧ (∀ c ∈ gap, isGap c = true) ∧
    follow = before ++ closingTag tag gap ++ rest

/-- How an opening tag ends, with or without a slash. -/
def tagEnd (slashed : Bool) : List Char := if slashed then ['/', '>'] else ['>']

mutual

/-- The piece is read back if this stands behind it. -/
def Legible : Piece → List Char → Prop
  | .comment content, _ => Lacks closesComment content
  | .text content, follow => content ≠ [] ∧ Passes startsTag follow content ∧ Ends startsTag follow
  | .script opening body tag gap, _ =>
    isScriptName opening.tag = true ∧ ProperOpening opening (tagEnd false) ∧ Lacks closesScript body ∧
      isScriptName tag = true ∧ ∀ c ∈ gap, isGap c = true
  | .emptyScript opening, _ => isScriptName opening.tag = true ∧ ProperOpening opening (tagEnd true)
  | .leaf opening .selfClosed, _ => Ordinary opening.tag ∧ ProperOpening opening (tagEnd true)
  | .leaf opening (.void slashed (some (before, gap))), _ =>
    isVoidName opening.tag = true ∧ ProperOpening opening (tagEnd slashed) ∧
      (∀ c ∈ before, isGap c = true) ∧ ∀ c ∈ gap, isGap c = true
  | .leaf opening (.void slashed none), follow =>
    isVoidName opening.tag = true ∧ ProperOpening opening (tagEnd slashed) ∧ ¬ Closes opening.tag follow
  | .element opening children gap, follow =>
    Ordinary opening.tag ∧ ProperOpening opening (tagEnd false) ∧
      LegibleAll children (closingTag opening.tag gap ++ follow) ∧ ∀ c ∈ gap, isGap c = true

def LegibleAll : List Piece → List Char → Prop
  | [], _ => True
  | piece :: rest, follow => Legible piece (writeAll rest ++ follow) ∧ LegibleAll rest follow

end

theorem passes_congr {stop : List Char → Bool} {first second run : List Char}
    (local_ : ∀ c tail, stop (c :: tail ++ first) = stop (c :: tail ++ second)) :
    Passes stop first run ↔ Passes stop second run := by
  induction run with
  | nil => simp [Passes]
  | cons c run ih => simp only [Passes, local_, ih]

theorem lacks_iff {stop : List Char → Bool} {text : List Char} (never : stop [] = false) :
    Lacks stop text ↔ ∀ tail, tail <:+ text → stop tail = false := by
  unfold Lacks
  induction text with
  | nil => simp [Passes, never]
  | cons c rest ih => simp [Passes, ih, List.suffix_cons_iff]

theorem passes_comment {content rest : List Char} :
    Passes closesComment ("-->".toList ++ rest) content ↔ Lacks closesComment content := by
  apply passes_congr
  intro c tail
  match tail with
  | [] => simp [closesComment, List.isPrefixOf]
  | [d] => simp [closesComment, List.isPrefixOf]
  | d :: e :: tail => simp [closesComment, List.isPrefixOf]

theorem lacks_closesComment {content : List Char} : Lacks closesComment content ↔ ¬ "-->".toList <:+: content := by
  rw [lacks_iff rfl]
  constructor
  · intro never given
    obtain ⟨before, after, same⟩ := given
    have stays := never ("-->".toList ++ after) ⟨before, by simpa using same⟩
    simp [closesComment] at stays
  · intro absent tail given
    apply Bool.eq_false_iff.mpr
    intro closes
    exact absent ((List.isPrefixOf_iff_prefix.mp closes).isInfix.trans given.isInfix)

theorem passes_text {content rest : List Char} :
    Passes startsTag ('<' :: rest) content ↔ Lacks startsTag content := by
  apply passes_congr
  intro c tail
  cases tail with
  | nil => by_cases first : c = '<' <;> simp [startsTag, first]
  | cons d tail => by_cases first : c = '<' <;> simp [startsTag, first]

theorem lacks_startsTag {content : List Char} :
    Lacks startsTag content ↔ ∀ c, c.isAlpha = true ∨ c = '/' ∨ c = '!' → ¬ ['<', c] <:+: content := by
  rw [lacks_iff rfl]
  constructor
  · intro never c starts given
    obtain ⟨before, after, same⟩ := given
    have stays := never ('<' :: c :: after) ⟨before, by simpa using same⟩
    have ends : startsTag ('<' :: c :: after) = true := by simpa [startsTag, or_assoc] using starts
    rw [stays] at ends
    cases ends
  · intro clear tail given
    obtain ⟨before, same⟩ := given
    unfold startsTag
    split
    next c rest =>
      apply Bool.eq_false_iff.mpr
      intro starts
      refine clear c ?_ ⟨before, rest, by simpa using same⟩
      simpa [or_assoc] using starts
    next => rfl

private theorem lowerCase_ne {name rest : List Char} (short : name.length < 6) :
    lowerCase ((name ++ '<' :: rest).take 6) ≠ scriptName := by
  intro same
  have member : '<' ∈ (name ++ '<' :: rest).take 6 := by
    rw [List.take_append]
    obtain ⟨more, positive⟩ : ∃ more, 6 - name.length = more + 1 := ⟨5 - name.length, by omega⟩
    simp [positive]
  have lowered : '<' ∈ lowerCase ((name ++ '<' :: rest).take 6) := List.mem_map.mpr ⟨'<', member, rfl⟩
  rw [same] at lowered
  exact absurd lowered (by decide)

theorem passes_script {body rest : List Char} :
    Passes closesScript ('<' :: rest) body ↔ Lacks closesScript body := by
  apply passes_congr
  intro c tail
  match tail with
  | [] => by_cases first : c = '<' <;> simp [closesScript, first]
  | d :: name =>
    by_cases starts : c = '<' ∧ d = '/'
    · obtain ⟨rfl, rfl⟩ := starts
      simp only [closesScript, List.cons_append, List.append_nil, decide_eq_decide]
      by_cases long : 6 ≤ name.length
      · rw [List.take_append_of_le_length long]
      · have short : (lowerCase (name.take 6)).length ≠ scriptName.length := by
          rw [lowerCase, List.length_map, List.length_take, show scriptName.length = 6 from rfl]
          omega
        constructor
        · intro same
          exact absurd same (lowerCase_ne (by omega))
        · intro same
          exact absurd (congrArg List.length same) short
    · have no : ∀ chars, closesScript (c :: d :: chars) = false := by
        intro chars
        unfold closesScript
        split
        next same => simp_all
        next => rfl
      simp [no]

theorem lacks_closesScript {code : List Char} :
    Lacks closesScript code ↔ ∀ name, isScriptName name = true → ¬ '<' :: '/' :: name <:+: code := by
  rw [lacks_iff rfl]
  constructor
  · intro never name script given
    obtain ⟨before, after, same⟩ := given
    have lowered : lowerCase name = scriptName := of_decide_eq_true script
    have length : name.length = 6 := by simpa [lowerCase, scriptName] using congrArg List.length lowered
    have stays := never ('<' :: '/' :: (name ++ after)) ⟨before, by simpa using same⟩
    simp only [closesScript, List.take_left' length, lowered, decide_true] at stays
    cases stays
  · intro clear tail given
    obtain ⟨before, same⟩ := given
    unfold closesScript
    split
    next rest =>
      apply decide_eq_false
      intro closes
      refine clear (rest.take 6) (decide_eq_true closes) ⟨before, rest.drop 6, ?_⟩
      simpa using same
    next => rfl

private theorem alpha_of_toLower {c : Char} (letter : c.toLower.isAlpha = true) : c.isAlpha = true := by
  unfold Char.toLower at letter
  split at letter
  next upper =>
    have capital : c.isUpper = true := by simpa [Char.isUpper] using upper
    simp [Char.isAlpha, capital]
  next => exact letter

private theorem nameChar_of_alpha {c : Char} (letter : c.isAlpha = true) : isNameChar c = true := by
  simp [isNameChar, Char.isAlphanum, letter]

/-- A name that only differs in letter case from one made of letters is a tag name. -/
private theorem tagName_of_lowerCase {tag name : List Char} (same : lowerCase tag = name) (some : name ≠ [])
    (letters : name.all Char.isAlpha = true) : isTagName tag = true := by
  have alpha : ∀ c ∈ tag, c.isAlpha = true := by
    intro c member
    apply alpha_of_toLower
    apply List.all_eq_true.mp letters
    rw [← same]
    exact List.mem_map.mpr ⟨c, member, rfl⟩
  cases tag with
  | nil => exact absurd same.symm some
  | cons c rest =>
    simp only [isTagName, Bool.and_eq_true, List.all_eq_true]
    exact ⟨alpha c (by simp), fun d member => nameChar_of_alpha (alpha d (by simp [member]))⟩

theorem script_tagName {tag : List Char} (script : isScriptName tag = true) : isTagName tag = true :=
  tagName_of_lowerCase (of_decide_eq_true script) (by decide) (by decide)

theorem void_tagName {tag : List Char} (void : isVoidName tag = true) : isTagName tag = true := by
  have names : ∀ name ∈ voidNames, name ≠ [] ∧ name.all Char.isAlpha = true := by decide
  have known := names _ (List.contains_iff_mem.mp void)
  exact tagName_of_lowerCase rfl known.1 known.2

theorem void_not_script {tag : List Char} (void : isVoidName tag = true) : isScriptName tag = false := by
  have other : scriptName ∉ voidNames := by decide
  apply decide_eq_false
  intro same
  apply other
  rw [← same]
  exact List.contains_iff_mem.mp void

theorem tagName_head {tag : List Char} (name : isTagName tag = true) :
    ∃ c rest, tag = c :: rest ∧ c.isAlpha = true := by
  cases tag with
  | nil => cases name
  | cons c rest =>
    simp only [isTagName, Bool.and_eq_true] at name
    exact ⟨c, rest, rfl, name.1⟩

theorem tagName_chars {tag : List Char} (name : isTagName tag = true) : ∀ c ∈ tag, isNameChar c = true := by
  cases tag with
  | nil => simp
  | cons c rest =>
    simp only [isTagName, Bool.and_eq_true, List.all_eq_true] at name
    intro d member
    rcases List.mem_cons.mp member with rfl | later
    · exact nameChar_of_alpha name.1
    · exact name.2 d later

/-- A leaf is its opening tag, with a closing tag behind it at most, and its name is not that of a script. -/
theorem legible_leaf {opening : Opening} {ending : Ending} {follow : List Char}
    (legible : Legible (.leaf opening ending) follow) :
    isTagName opening.tag = true ∧ isScriptName opening.tag = false ∧
      ∃ slashed rest, ProperOpening opening (tagEnd slashed) ∧ (rest = [] ∨ ['>'] <:+ rest) ∧
        (Piece.leaf opening ending).write = opening.write ++ tagEnd slashed ++ rest := by
  cases ending with
  | selfClosed =>
    obtain ⟨ordinary, proper⟩ := legible
    exact ⟨ordinary.name, ordinary.notScript, true, [], proper, Or.inl rfl, by simp [Piece.write, Ending.write, tagEnd]⟩
  | void slashed closing =>
    cases closing with
    | none =>
      obtain ⟨void, proper, _⟩ := legible
      refine ⟨void_tagName void, void_not_script void, slashed, [], proper, Or.inl rfl, ?_⟩
      cases slashed <;> simp [Piece.write, Ending.write, tagEnd]
    | some pair =>
      obtain ⟨before, gap⟩ := pair
      obtain ⟨void, proper, _⟩ := legible
      refine ⟨void_tagName void, void_not_script void, slashed, before ++ closingTag opening.tag gap, proper, Or.inr ?_, ?_⟩
      · exact (List.suffix_append ('<' :: '/' :: opening.tag ++ gap) ['>']).trans (List.suffix_append before _)
      · cases slashed <;> simp [Piece.write, Ending.write, tagEnd]

end Stencil.Proofs.LegibleMarkup
