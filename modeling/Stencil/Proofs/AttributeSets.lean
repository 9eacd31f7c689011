import Stencil.Proofs.DecodedAttributes
import Stencil.Proofs.HoistHistory

/-! Attribute lists as sets. The canonical text of a list of attributes with distinct names stands for
the set of them: it does not depend on their order, and no other set has it. So the identifier that a
hoist table gives such a list is that of the set. -/

namespace Stencil.Proofs.AttributeSets
open HoistTable HoistInvariant HoistHistory DecodedAttributes

def Distinct (attributes : List Attribute) : Prop := (attributes.map Attribute.name).Nodup

private theorem sorted_alike {first second : List Attribute} (distinct : Distinct first) (same : first.Perm second) :
    Attribute.sorted first = Attribute.sorted second := by
  have perm : (Attribute.sorted first).Perm (Attribute.sorted second) :=
    (sorted_perm first).trans (same.trans (sorted_perm second).symm)
  refine perm.eq_of_pairwise ?_ (sorted_ordered first) (sorted_ordered second)
  intro item other inFirst inSecond before behind
  have member : item ∈ first := (sorted_perm first).subset inFirst
  have otherMember : other ∈ first := same.symm.subset ((sorted_perm second).subset inSecond)
  exact List.inj_on_of_nodup_map distinct member otherMember (le_antisymm before behind)

private theorem canonical_iff_perm {first second : List Attribute} (distinct : Distinct first) :
    Attribute.canonical first = Attribute.canonical second ↔ first.Perm second := by
  constructor
  · exact canonical_perm
  · intro same
    rw [Attribute.canonical, sorted_alike distinct same, Attribute.canonical]

private theorem perm_iff_members {first second : List Attribute} (distinct : Distinct first)
    (distinct' : Distinct second) : first.Perm second ↔ ∀ item, item ∈ first ↔ item ∈ second :=
  List.perm_ext_iff_of_nodup distinct.of_map distinct'.of_map

/-- Lists of attributes with distinct names have the same canonical text exactly if one is a permutation of
the other. Hence, whatever has been done with a table and whatever is done with it between the two, they get
the same identifier exactly if they are the same set. -/
theorem canonical_identifies (first second : List Attribute) (distinct : Distinct first)
    (distinct' : Distinct second) :
    (Attribute.canonical first = Attribute.canonical second ↔ first.Perm second) ∧
      ∀ past between, Uncleared between →
        let (identifier, table) := (history .empty past).addStatics (Attribute.canonical first)
        identifier = ((history table between).addStatics (Attribute.canonical second)).1 ↔
          ∀ item, item ∈ first ↔ item ∈ second := by
  refine ⟨canonical_iff_perm distinct, ?_⟩
  intro past between uncleared
  have numbered := history_numbered numbered_empty past
  exact calc
    _ ↔ Attribute.canonical first = Attribute.canonical second := added_alike numbered uncleared _ _
    _ ↔ first.Perm second := canonical_iff_perm distinct
    _ ↔ ∀ item, item ∈ first ↔ item ∈ second := perm_iff_members distinct distinct'

/-- A value that reads like further attributes is still told from them. -/
theorem canonical_identifies_quoted :
    Attribute.canonical [⟨"b", "2"⟩, ⟨"a", "1\", \"b"⟩] = Attribute.canonical [⟨"a", "1\", \"b"⟩, ⟨"b", "2"⟩] ∧
      ((HoistTable.empty.addStatics (Attribute.canonical [⟨"a", "1\", \"b\", \"2"⟩])).1 ≠
        ((history (HoistTable.empty.addStatics (Attribute.canonical [⟨"a", "1\", \"b\", \"2"⟩])).2
          [("k", .addLiteral "f()")]).addStatics (Attribute.canonical [⟨"a", "1"⟩, ⟨"b", "2"⟩])).1) := by
  have swapped := canonical_identifies [⟨"b", "2"⟩, ⟨"a", "1\", \"b"⟩] [⟨"a", "1\", \"b"⟩, ⟨"b", "2"⟩]
    (by simp [Distinct]) (by simp [Distinct])
  have apart := canonical_identifies [⟨"a", "1\", \"b\", \"2"⟩] [⟨"a", "1"⟩, ⟨"b", "2"⟩] (by simp [Distinct]) (by simp [Distinct])
  refine ⟨swapped.1.mpr (.swap ..), ?_⟩
  intro same
  have members := (apart.2 [] [("k", .addLiteral "f()")] (by simp [Uncleared])).mp same
  exact absurd ((members ⟨"b", "2"⟩).mpr (by simp)) (by decide)

end Stencil.Proofs.AttributeSets
