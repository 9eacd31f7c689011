import Stencil.Proofs.LegibleMarkup

/-! Markup stays legible wherever it is put. Only a text and a void element look at what stands
behind them, and neither goes on where a tag, a comment or the closing tag of another element
starts. -/

namespace Stencil.Proofs.SealedMarkup
open Markup ScannerReading AttributeReading LegibleMarkup

/-- Nothing here would be taken by a text or by a void element in front of it. -/
structure Sealed (follow : List Char) : Prop where
  ends : Ends startsTag follow
  stays : ∀ tag, isVoidName tag = true → ¬ Closes tag follow

theorem ends_head {follow : List Char} (ends : Ends startsTag follow) :
    follow = [] ∨ ∃ rest, follow = '<' :: rest := by
  rcases ends with rfl | starts
  · exact Or.inl rfl
  · unfold startsTag at starts
    split at starts
    next c rest => exact Or.inr ⟨_, rfl⟩
    next => cases starts

theorem sealed_nil : Sealed [] := by
  refine ⟨Or.inl rfl, ?_⟩
  intro tag _ closes
  obtain ⟨before, gap, rest, _, _, same⟩ := closes
  simp [closingTag] at same

/-- Behind the `<` of a closing tag stands its slash. -/
private theorem not_closes {tag follow : List Char} {c : Char} (other : c ≠ '/') : ¬ Closes tag ('<' :: c :: follow) := by
  intro given
  obtain ⟨before, gap, behind, blanks, _, same⟩ := given
  cases before with
  | nil =>
    simp only [closingTag, List.nil_append, List.cons_append, List.cons.injEq] at same
    exact other same.2.1
  | cons d before =>
    simp only [List.cons_append, List.cons.injEq] at same
    have blank := blanks d (by simp)
    rw [← same.1] at blank
    cases blank

theorem comment_sealed (rest : List Char) : Sealed ("<!--".toList ++ rest) :=
  ⟨Or.inr rfl, fun _ _ => not_closes (by decide)⟩

theorem tag_sealed {tag : List Char} (name : isTagName tag = true) (rest : List Char) : Sealed ('<' :: tag ++ rest) := by
  obtain ⟨c, more, rfl, letter⟩ := tagName_head name
  refine ⟨Or.inr (by simp [startsTag, letter]), fun _ _ => not_closes ?_⟩
  intro slash
  rw [slash] at letter
  cases letter

private theorem name_stops {gap : List Char} (gaps : ∀ c ∈ gap, isGap c = true) (rest : List Char) :
    (gap ++ '>' :: rest).takeWhile isNameChar = [] := by
  cases gap with
  | nil => rfl
  | cons d gap =>
    have blank := gaps d (by simp)
    simp only [isGap, Bool.or_eq_true, decide_eq_true_eq] at blank
    rcases blank with ((rfl | rfl) | rfl) | rfl <;> rfl

/-- A void element does not take the closing tag of an element that may have content. -/
theorem closing_sealed {tag gap : List Char} (ordinary : Ordinary tag) (gaps : ∀ c ∈ gap, isGap c = true)
    (rest : List Char) : Sealed (closingTag tag gap ++ rest) := by
  refine ⟨Or.inr rfl, ?_⟩
  intro other void given
  obtain ⟨before, space, behind, blanks, spaces, same⟩ := given
  cases before with
  | cons d before =>
    simp only [closingTag, List.cons_append, List.cons.injEq] at same
    have blank := blanks d (by simp)
    rw [← same.1] at blank
    cases blank
  | nil =>
    have names : tag ++ (gap ++ '>' :: rest) = other ++ (space ++ '>' :: behind) := by simpa [closingTag] using same
    have whole := congrArg (List.takeWhile isNameChar) names
    rw [List.takeWhile_append_of_pos (tagName_chars ordinary.name), name_stops gaps,
      List.takeWhile_append_of_pos (tagName_chars (void_tagName void)), name_stops spaces,
      List.append_nil, List.append_nil] at whole
    rw [← whole, ordinary.notVoid] at void
    cases void

theorem passes_of_lacks {content follow : List Char} (lacks : Lacks startsTag content)
    (ends : Ends startsTag follow) : Passes startsTag follow content := by
  rcases ends_head ends with rfl | ⟨rest, rfl⟩
  · exact lacks
  · exact passes_text.mpr lacks

theorem lacks_of_passes {content follow : List Char} (passes : Passes startsTag follow content)
    (ends : Ends startsTag follow) : Lacks startsTag content := by
  rcases ends_head ends with rfl | ⟨rest, rfl⟩
  · exact passes
  · exact passes_text.mp passes

/-- A closing tag behind blanks cannot start inside of a text. -/
theorem text_stays {content follow : List Char} (lacks : ¬ ['<', '/'] <:+: content)
    (ends : Ends startsTag follow) {tag : List Char} (stays : ¬ Closes tag follow) : ¬ Closes tag (content ++ follow) := by
  intro given
  obtain ⟨before, gap, behind, blanks, gaps, same⟩ := given
  rw [List.append_assoc, closingTag, List.cons_append] at same
  rcases List.append_eq_append_iff.mp same with ⟨more, rfl, rest⟩ | ⟨more, rfl, rest⟩
  · exact stays ⟨more, gap, behind, fun c member => blanks c (by simp [member]), gaps, by simpa [closingTag] using rest⟩
  · cases more with
    | nil =>
      refine stays ⟨[], gap, behind, by simp, gaps, ?_⟩
      simpa [closingTag] using rest.symm
    | cons c more =>
      cases more with
      | nil =>
        simp only [List.cons_append, List.nil_append, List.cons.injEq] at rest
        rcases ends_head ends with rfl | ⟨later, rfl⟩
        · exact absurd rest.2 (by simp)
        · exact absurd rest.2 (by simp)
      | cons d more =>
        simp only [List.cons_append, List.cons.injEq] at rest
        obtain ⟨rfl, rfl, _⟩ := rest
        exact lacks ⟨before, more, by simp⟩

private theorem lacks_closing {content : List Char} (lacks : Lacks startsTag content) : ¬ ['<', '/'] <:+: content := by
  intro given
  obtain ⟨before, after, same⟩ := given
  have never := (lacks_iff rfl).mp lacks (['<', '/'] ++ after) ⟨before, by simpa using same⟩
  simp [startsTag] at never

private theorem piece_sealed {piece : Piece} {follow : List Char} (legible : Legible piece follow)
    (notText : ∀ content, piece ≠ .text content) (rest : List Char) : Sealed (piece.write ++ rest) := by
  have opened : ∀ {opening : Opening} (more : List Char), isTagName opening.tag = true →
      Sealed (opening.write ++ more) := by
    intro opening more name
    simpa [Opening.write] using tag_sealed name (opening.fields.flatMap Field.write ++ (opening.gap ++ more))
  cases piece with
  | comment content => simpa [Piece.write] using comment_sealed (content ++ ("-->".toList ++ rest))
  | text content => exact absurd rfl (notText content)
  | script opening body tag gap => simpa [Piece.write] using opened _ (script_tagName legible.1)
  | emptyScript opening => simpa [Piece.write] using opened _ (script_tagName legible.1)
  | leaf opening ending =>
    have name : isTagName opening.tag = true := by
      cases ending with
      | selfClosed => exact legible.1.name
      | void slashed closing =>
        cases closing with
        | none => exact void_tagName legible.1
        | some gap => exact void_tagName legible.1
    simpa [Piece.write] using opened _ name
  | element opening children gap => simpa [Piece.write] using opened _ legible.1.name

/-- What stands behind a text is not another text. -/
private theorem ends_moved {pieces : List Piece} {first second : List Char} (legible : LegibleAll pieces first)
    (before : Ends startsTag (writeAll pieces ++ first)) (outside : Sealed second) :
    Ends startsTag (writeAll pieces ++ second) := by
  cases pieces with
  | nil => exact outside.ends
  | cons piece rest =>
    have notText : ∀ content, piece ≠ .text content := by
      rintro content rfl
      obtain ⟨⟨some, passes, _⟩, _⟩ := legible
      obtain ⟨c, content, rfl⟩ := List.exists_cons_of_ne_nil some
      rcases before with none | starts
      · simp [writeAll, Piece.write] at none
      · have here := passes.1
        simp only [writeAll, Piece.write, List.append_assoc] at starts
        rw [here] at starts
        cases starts
    rw [writeAll, List.append_assoc]
    exact (piece_sealed legible.1 notText _).ends

mutual

private theorem legible_moved (piece : Piece) {first second : List Char} (legible : Legible piece first)
    (ends : ∀ content, piece = .text content → Ends startsTag second)
    (stays : ∀ tag, isVoidName tag = true → ¬ Closes tag second) : Legible piece second := by
  match piece with
  | .comment _ | .script _ _ _ _ | .emptyScript _ | .leaf _ .selfClosed | .leaf _ (.void _ (some _)) => exact legible
  | .text content =>
    obtain ⟨some, passes, before⟩ := legible
    exact ⟨some, passes_of_lacks (lacks_of_passes passes before) (ends content rfl), ends content rfl⟩
  | .leaf opening (.void slashed none) => exact ⟨legible.1, legible.2.1, stays opening.tag legible.1⟩
  | .element opening children gap =>
    obtain ⟨ordinary, proper, inside, gaps⟩ := legible
    exact ⟨ordinary, proper, (legibleAll_moved children inside (closing_sealed ordinary gaps second)).1, gaps⟩
termination_by structural piece

/-- Legible markup is legible in front of everything that is sealed, and hides nothing of it. -/
theorem legibleAll_moved (pieces : List Piece) {first second : List Char} (legible : LegibleAll pieces first)
    (outside : Sealed second) :
    LegibleAll pieces second ∧ ∀ tag, isVoidName tag = true → ¬ Closes tag (writeAll pieces ++ second) := by
  match pieces with
  | [] => exact ⟨trivial, outside.stays⟩
  | piece :: rest =>
    obtain ⟨head, tail⟩ := legible
    obtain ⟨later, stays⟩ := legibleAll_moved rest tail outside
    have ends : ∀ content, piece = .text content → Ends startsTag (writeAll rest ++ second) := by
      rintro content rfl
      exact ends_moved tail head.2.2 outside
    have moved := legible_moved piece head ends stays
    refine ⟨⟨moved, later⟩, ?_⟩
    intro tag void
    rw [writeAll, List.append_assoc]
    by_cases text : ∃ content, piece = .text content
    · obtain ⟨content, rfl⟩ := text
      exact text_stays (lacks_closing (lacks_of_passes head.2.1 head.2.2)) (ends content rfl) (stays tag void)
    · exact (piece_sealed moved (fun content same => text ⟨content, same⟩) _).stays tag void
termination_by structural pieces

end

theorem writeAll_append (first second : List Piece) : writeAll (first ++ second) = writeAll first ++ writeAll second := by
  induction first with
  | nil => rfl
  | cons piece rest ih => rw [List.cons_append, writeAll, writeAll, ih, List.append_assoc]

theorem legibleAll_append {first second : List Piece} {follow : List Char} :
    LegibleAll (first ++ second) follow ↔ LegibleAll first (writeAll second ++ follow) ∧ LegibleAll second follow := by
  induction first with
  | nil => simp [LegibleAll]
  | cons piece rest ih => simp only [List.cons_append, LegibleAll, ih, writeAll_append, List.append_assoc, and_assoc]

end Stencil.Proofs.SealedMarkup
