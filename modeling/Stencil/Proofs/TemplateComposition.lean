import Stencil.Proofs.SealedMarkup
import Stencil.Proofs.TemplateReading

/-! Templates are put together from templates. What was read by itself is read the same inside of
an element and on both sides of a comment, since markup stays legible there. -/

namespace Stencil.Proofs.TemplateComposition
open Markup LegibleMarkup SealedMarkup TemplateReading

theorem denotes_append {first second : List Piece} {nodes others : List Node} (one : Denotes first nodes)
    (other : Denotes second others) : Denotes (first ++ second) (nodes ++ others) := by
  induction one with
  | nil => exact other
  | comment _ ih => exact .comment ih
  | text _ ih => exact .text ih
  | script flags distinct _ ih => exact .script flags distinct ih
  | leaf made _ ih => exact .leaf made ih
  | element inside made _ _ ih => exact .element inside made ih

theorem read_separated {first second content : String} {one other : Template}
    (readFirst : Template.read first = .ok one) (readSecond : Template.read second = .ok other)
    (unclosed : ¬ "-->".toList <:+: content.toList) :
    ∃ found, Template.read (first ++ "<!--" ++ content ++ "-->" ++ second) = .ok found ∧
      spanlessAll found.body = spanlessAll (one.body ++ other.body) := by
  obtain ⟨before, writtenFirst, legibleFirst, denotesFirst⟩ := read_sound readFirst
  obtain ⟨after, writtenSecond, legibleSecond, denotesSecond⟩ := read_sound readSecond
  have moved : LegibleAll before (writeAll (.comment content.toList :: after) ++ []) := by
    refine (legibleAll_moved before legibleFirst ?_).1
    simpa [writeAll, Piece.write] using comment_sealed (content.toList ++ ("-->".toList ++ writeAll after))
  have legible : LegibleAll (before ++ .comment content.toList :: after) [] :=
    legibleAll_append.mpr ⟨moved, lacks_closesComment.mpr unclosed, legibleSecond⟩
  have denotes := denotes_append denotesFirst (@Denotes.comment content.toList _ _ denotesSecond)
  refine read_complete ?_ legible denotes
  simp [writeAll_append, writeAll, Piece.write, writtenFirst, writtenSecond]

theorem read_enclosed {tag source : String} {inner : Template} (ordinary : Ordinary tag.toList) (other : tag ≠ "each")
    (read : Template.read source = .ok inner) :
    ∃ found, Template.read ("<" ++ tag ++ ">" ++ source ++ "</" ++ tag ++ ">") = .ok found ∧
      spanlessAll found.body = [.element tag [] (spanlessAll inner.body) none none .none] := by
  obtain ⟨pieces, written, legible, denotes⟩ := read_sound read
  let opening : Opening := ⟨tag.toList, [], []⟩
  have inside := (legibleAll_moved pieces legible (@closing_sealed _ [] ordinary (by simp) [])).1
  have made : Makes (String.ofList opening.tag) (opening.fields.map attributeOf) inner.body
      (.element tag [] inner.body none none .none) := by
    rw [String.ofList_toList]
    exact .element other .nil .nil
  have legibleAll : LegibleAll [.element opening pieces []] [] :=
    ⟨⟨ordinary, ⟨by simp [opening], by simp [opening], by simp [opening]⟩, inside, by simp⟩, trivial⟩
  refine read_complete ?_ legibleAll (.element denotes made .nil)
  simp [opening, writeAll, Piece.write, Opening.write, closingTag, written]

/-- Reading is compositional: a comment joins what was read of two sources, and an element takes
what was read of one for its content. -/
theorem read_composed (first second : String) (one other : Template) (readFirst : Template.read first = .ok one)
    (readSecond : Template.read second = .ok other) :
    (∀ content : String, ¬ "-->".toList <:+: content.toList →
      ∃ found, Template.read (first ++ "<!--" ++ content ++ "-->" ++ second) = .ok found ∧
        spanlessAll found.body = spanlessAll (one.body ++ other.body)) ∧
    ∀ tag : String, isTagName tag.toList = true → isVoidName tag.toList = false → isScriptName tag.toList = false →
      tag ≠ "each" →
      ∃ found, Template.read ("<" ++ tag ++ ">" ++ first ++ "</" ++ tag ++ ">") = .ok found ∧
        spanlessAll found.body = [.element tag [] (spanlessAll one.body) none none .none] := by
  constructor
  · intro content unclosed
    exact read_separated readFirst readSecond unclosed
  · intro tag name notVoid notScript notEach
    exact read_enclosed ⟨name, notScript, notVoid⟩ notEach readFirst

/-- Neither the blank behind the void element nor the `<` at the end takes what is put behind it. -/
theorem read_composed_open_ends :
    Template.read "<br> " = .ok ⟨[.element "br" [] [] none none ⟨0, 4, 1, 1⟩, .text " "], none⟩ ∧
    Template.read "1 <" = .ok ⟨[.text "1 <"], none⟩ ∧
    (∃ found, Template.read ("<br> " ++ "<!--" ++ "--" ++ "-->" ++ "1 <") = .ok found ∧
      spanlessAll found.body = [.element "br" [] [] none none .none, .text " ", .text "1 <"]) ∧
    ∃ found, Template.read ("<" ++ "brx" ++ ">" ++ "<br> " ++ "</" ++ "brx" ++ ">") = .ok found ∧
      spanlessAll found.body = [.element "brx" [] [.element "br" [] [] none none .none, .text " "] none none .none] := by
  have first : Template.read "<br> " = .ok ⟨[.element "br" [] [] none none ⟨0, 4, 1, 1⟩, .text " "], none⟩ := by
    decide +kernel
  have second : Template.read "1 <" = .ok ⟨[.text "1 <"], none⟩ := by decide +kernel
  have composed := read_composed _ _ _ _ first second
  exact ⟨first, second, composed.1 "--" (by decide), composed.2 "brx" (by decide) (by decide) (by decide) (by decide)⟩

end Stencil.Proofs.TemplateComposition
