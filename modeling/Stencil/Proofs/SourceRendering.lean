import Stencil.Proofs.TemplateReading

/-! A template accounts for every character of its source: the source is the renderings of its
nodes one after another, with comments between them and nothing else. -/

namespace Stencil.Proofs.SourceRendering
open Markup ScannerReading AttributeReading LegibleMarkup TemplateReading

/-- The closing tag that a void element may have, with the blanks before it. -/
def needless (tag : List Char) : Option (List Char × List Char) → List Char
  | none => []
  | some (before, gap) => before ++ closingTag tag gap

/-- How a forest can be written. A tag is written by its name, its attributes in order and
blanks; what the attributes make of the node is said by `Makes`. -/
inductive Rendering : List Node → List Char → Prop where
  | nil : Rendering [] []
  | comment {content nodes chars} (unclosed : ¬ "-->".toList <:+: content) (rest : Rendering nodes chars) :
      Rendering nodes ("<!--".toList ++ content ++ "-->".toList ++ chars)
  | text {content : String} {nodes chars} (rest : Rendering nodes chars) :
      Rendering (.text content :: nodes) (content.toList ++ chars)
  | script {opening : Opening} {body closing gap nodes chars} (script : isScriptName opening.tag = true)
      (proper : ProperOpening opening ['>']) (flags : ∀ field ∈ opening.fields, field.name = "hoisted".toList)
      (closes : isScriptName closing = true) (gaps : ∀ c ∈ gap, isGap c = true) (rest : Rendering nodes chars) :
      Rendering (.script (String.ofList (Text.trimChars body)) (!opening.fields.isEmpty) :: nodes)
        (opening.write ++ '>' :: body ++ closingTag closing gap ++ chars)
  | selfClosed {opening : Opening} {node nodes chars} (ordinary : Ordinary opening.tag)
      (proper : ProperOpening opening ['/', '>'])
      (made : Makes (String.ofList opening.tag) (opening.fields.map attributeOf) [] node)
      (rest : Rendering nodes chars) :
      Rendering (node :: nodes) (opening.write ++ ['/', '>'] ++ chars)
  | void {opening : Opening} {slashed closing node nodes chars} (void : isVoidName opening.tag = true)
      (proper : ProperOpening opening (tagEnd slashed))
      (made : Makes (String.ofList opening.tag) (opening.fields.map attributeOf) [] node)
      (gaps : ∀ pair ∈ closing, (∀ c ∈ pair.1, isGap c = true) ∧ ∀ c ∈ pair.2, isGap c = true)
      (rest : Rendering nodes chars) :
      Rendering (node :: nodes) (opening.write ++ tagEnd slashed ++ needless opening.tag closing ++ chars)
  | enclosing {opening : Opening} {gap children inner node nodes chars} (ordinary : Ordinary opening.tag)
      (proper : ProperOpening opening ['>'])
      (made : Makes (String.ofList opening.tag) (opening.fields.map attributeOf) children node)
      (inside : Rendering children inner) (gaps : ∀ c ∈ gap, isGap c = true) (rest : Rendering nodes chars) :
      Rendering (node :: nodes) (opening.write ++ '>' :: inner ++ closingTag opening.tag gap ++ chars)

private theorem rendering_of_denotes {pieces : List Piece} {nodes : List Node} (denotes : Denotes pieces nodes)
    {follow : List Char} (legible : LegibleAll pieces follow) : Rendering nodes (writeAll pieces) := by
  induction denotes generalizing follow with
  | nil => exact .nil
  | @comment content pieces nodes rest ih =>
    simpa [writeAll, Piece.write] using Rendering.comment (lacks_closesComment.mp legible.1) (ih legible.2)
  | @text content _ _ _ ih =>
    simpa [writeAll, Piece.write] using @Rendering.text (String.ofList content) _ _ (ih legible.2)
  | @script opening body tag gap _ _ flags _ _ ih =>
    obtain ⟨⟨script, proper, _, closes, gaps⟩, later⟩ := legible
    have names : ∀ field ∈ opening.fields, field.name = "hoisted".toList := by
      intro field member
      simpa [attributeOf] using congrArg String.toList (flags field member)
    simpa [writeAll, Piece.write] using Rendering.script script proper names closes gaps (ih later)
  | @leaf opening ending pieces _ _ made _ ih =>
    cases ending with
    | selfClosed =>
      obtain ⟨⟨ordinary, proper⟩, later⟩ := legible
      simpa [writeAll, Piece.write, Ending.write] using Rendering.selfClosed ordinary proper made (ih later)
    | void slashed closing =>
      obtain ⟨first, later⟩ := legible
      have facts : isVoidName opening.tag = true ∧ ProperOpening opening (tagEnd slashed) ∧
          ∀ pair ∈ closing, (∀ c ∈ pair.1, isGap c = true) ∧ ∀ c ∈ pair.2, isGap c = true := by
        cases closing with
        | none => exact ⟨first.1, first.2.1, by simp⟩
        | some pair => exact ⟨first.1, first.2.1, by simpa using first.2.2⟩
      have rendered := Rendering.void facts.1 facts.2.1 made facts.2.2 (ih later)
      have same : writeAll (.leaf opening (.void slashed closing) :: pieces) =
          opening.write ++ tagEnd slashed ++ needless opening.tag closing ++ writeAll pieces := by
        cases slashed <;> cases closing <;> simp [writeAll, Piece.write, Ending.write, tagEnd, needless]
      rw [same]
      exact rendered
  | element inside made _ ihInside ih =>
    obtain ⟨⟨ordinary, proper, content, gaps⟩, later⟩ := legible
    simpa [writeAll, Piece.write] using Rendering.enclosing ordinary proper made (ihInside content) gaps (ih later)

/-- Every accepted source is rendered by its template. -/
theorem read_renders (source : String) (found : Template) (read : Template.read source = .ok found) :
    Rendering found.body source.toList := by
  obtain ⟨pieces, written, legible, denotes⟩ := read_sound read
  rw [written]
  exact rendering_of_denotes denotes legible

theorem read_renders_guarded :
    Template.read "<!--a--><p if=ok>1 < 2<br> </br></p>" =
      .ok ⟨[.element "p" [] [.text "1 < 2", .element "br" [] [] none none ⟨22, 32, 1, 23⟩] none
        (some ⟨"ok", ⟨11, 16, 1, 12⟩⟩) ⟨8, 36, 1, 9⟩], none⟩ ∧
    Rendering [.element "p" [] [.text "1 < 2", .element "br" [] [] none none ⟨22, 32, 1, 23⟩] none
        (some ⟨"ok", ⟨11, 16, 1, 12⟩⟩) ⟨8, 36, 1, 9⟩] "<!--a--><p if=ok>1 < 2<br> </br></p>".toList := by
  have read : Template.read "<!--a--><p if=ok>1 < 2<br> </br></p>" =
      .ok ⟨[.element "p" [] [.text "1 < 2", .element "br" [] [] none none ⟨22, 32, 1, 23⟩] none
        (some ⟨"ok", ⟨11, 16, 1, 12⟩⟩) ⟨8, 36, 1, 9⟩], none⟩ := by decide +kernel
  exact ⟨read, read_renders _ _ read⟩

end Stencil.Proofs.SourceRendering
