import Mathlib
import Stencil.Render.Statement
import Stencil.Render.Statics

/-! How literals of the generated script are written: what a quoted literal escapes and how its escapes
look, and how literals are put in a row. -/

namespace Stencil.Proofs.Literals
open Text

/-- The characters that are not written as they are in a quoted literal. -/
def escapes : List Char := '"' :: '\\' :: (List.range 32).map Char.ofNat

theorem control_escaped {c : Char} (control : c.toNat < 32) : c ∈ escapes := by
  have member : c ∈ (List.range 32).map Char.ofNat :=
    List.mem_map.mpr ⟨c.toNat, List.mem_range.mpr control, Char.ofNat_toNat c⟩
  simp [escapes, member]

theorem quotedChar_kept {c : Char} (kept : c ∉ escapes) : quotedChar c = [c] := by
  have large : ¬ c.toNat < 32 := fun control => kept (control_escaped control)
  have other : ∀ d ∈ escapes, c ≠ d := by
    intro d member same
    exact kept (same ▸ member)
  unfold quotedChar
  rw [if_neg (other _ (by decide)), if_neg (other _ (by decide)), if_neg (other _ (by decide)),
    if_neg (other _ (by decide)), if_neg (other _ (by decide)), if_neg (other _ (by decide)),
    if_neg (other _ (by decide)), if_neg large]

/-- An escape is a backslash and a code, which may be followed by hexadecimal digits. -/
theorem quotedChar_escaped : ∀ c ∈ escapes, ∃ code more, quotedChar c = '\\' :: code :: more ∧
    ∀ d ∈ more, d ∉ ['"', '\\'] := by
  intro c member
  have shape : (escapes.all fun c => (quotedChar c).head? = some '\\' && (quotedChar c).tail ≠ [] &&
      (quotedChar c).tail.tail.all fun d => d ∉ ['"', '\\']) = true := by decide +kernel
  have own := List.all_eq_true.mp shape c member
  simp only [Bool.and_eq_true, decide_eq_true_eq, List.all_eq_true] at own
  obtain ⟨⟨first, some⟩, digits⟩ := own
  match written : quotedChar c with
  | [] => simp [written] at first
  | [d] => simp [written] at some
  | d :: code :: more =>
    simp only [written, List.head?_cons, Option.some.injEq] at first
    subst first
    exact ⟨code, more, rfl, by simpa [written] using digits⟩

theorem quoted_toList (text : String) : (quoted text).toList = quotedChars text.toList := by simp [quoted]

theorem intercalate_cons {separator first : List Char} {rest : List (List Char)} :
    separator.intercalate (first :: rest) = first ++ rest.flatMap (separator ++ ·) := by
  induction rest generalizing first with
  | nil => simp
  | cons second rest ih => rw [List.intercalate_cons_cons, ih, List.flatMap_cons, List.append_assoc, List.append_assoc]

theorem items_eq (attributes : List Attribute) :
    Attribute.items attributes = (attributes.flatMap fun item => [item.name, item.value]).map quoted := by
  simp [Attribute.items, List.map_flatMap]

end Stencil.Proofs.Literals
