import Stencil.Compile

/-! The code of a normalized forest. Normalizing leaves out blank texts and makes a loop on an element a
loop around it; only the first of these changes what is generated, since an element that carries a loop
is written the same as a loop with that element alone in it. -/

namespace Stencil.Proofs.NormalGeneration

mutual

/-- A node without the blank texts inside of it. -/
def cleared : Node → Node
  | .element tag attributes children loop guard span =>
    .element tag attributes (clearedAll children) loop guard span
  | .text content => .text content
  | .loop spec children span => .loop spec (clearedAll children) span
  | .script code hoisted => .script code hoisted

def clearedAll : List Node → List Node
  | [] => []
  | node :: rest => if node.isBlankText then clearedAll rest else cleared node :: clearedAll rest

end

mutual

/-- A node with the loops on elements made loops around them, blank texts kept. -/
def lowered : Node → Node
  | .element tag attributes children none guard span =>
    .element tag attributes (loweredAll children) none guard span
  | .element tag attributes children (some spec) guard span =>
    .loop spec [.element tag attributes (loweredAll children) none guard span] span
  | .text content => .text content
  | .loop spec children span => .loop spec (loweredAll children) span
  | .script code hoisted => .script code hoisted

def loweredAll : List Node → List Node
  | [] => []
  | node :: rest => lowered node :: loweredAll rest

end

mutual

private theorem normalize_eq (node : Node) : node.normalize = lowered (cleared node) := by
  match node with
  | .text content => rfl
  | .script code hoisted => rfl
  | .loop spec children span => simp only [Node.normalize, cleared, lowered, normalizeAll_eq children]
  | .element tag attributes children loop guard span =>
    cases loop with
    | none => simp only [Node.normalize, cleared, lowered, normalizeAll_eq children]
    | some spec => simp only [Node.normalize, cleared, lowered, normalizeAll_eq children]
termination_by structural node

private theorem normalizeAll_eq (nodes : List Node) : normalizeAll nodes = loweredAll (clearedAll nodes) := by
  match nodes with
  | [] => rfl
  | node :: rest =>
    unfold normalizeAll clearedAll
    split
    · exact normalizeAll_eq rest
    · rw [loweredAll, normalize_eq node, normalizeAll_eq rest]
termination_by structural nodes

end

private theorem loweredAll_length (nodes : List Node) : (loweredAll nodes).length = nodes.length := by
  induction nodes with
  | nil => rfl
  | cons node rest ih => simp [loweredAll, ih]

/-- An element has the key of the iteration in a loop of its own, so the one it is given where it
stands is not used. -/
private theorem actions_alone (token : String) (key : Option Key) (table : HoistTable) (tag : String)
    (attributes : List Attribute) (children : List Node) (spec : LoopSpec) (guard : Option Guard) (span : Text.Span) :
    (Node.loop spec [.element tag attributes children none guard span] span).actions token key table =
      (Node.element tag attributes children (some spec) guard span).actions token key table := by
  simp [Node.actions, childActions, Key.ofChild]

mutual

private theorem actions_lowered (node : Node) (token : String) (key : Option Key) (table : HoistTable) :
    (lowered node).actions token key table = node.actions token key table := by
  match node with
  | .text content => rfl
  | .script code hoisted => rfl
  | .loop spec children span =>
    simp only [lowered, Node.actions, childActions_lowered children, loweredAll_length]
  | .element tag attributes children none guard span =>
    simp only [lowered, Node.actions, forestActions_lowered children]
  | .element tag attributes children (some spec) guard span =>
    rw [lowered, actions_alone]
    simp only [Node.actions, forestActions_lowered children]
termination_by structural node

private theorem forestActions_lowered (nodes : List Node) (token : String) (table : HoistTable) :
    forestActions token table (loweredAll nodes) = forestActions token table nodes := by
  match nodes with
  | [] => rfl
  | node :: rest => simp only [loweredAll, forestActions, actions_lowered node, forestActions_lowered rest]
termination_by structural nodes

private theorem childActions_lowered (nodes : List Node) (token : String) (count ordinal : Nat) (table : HoistTable) :
    childActions token count ordinal table (loweredAll nodes) = childActions token count ordinal table nodes := by
  match nodes with
  | [] => rfl
  | node :: rest => simp only [loweredAll, childActions, actions_lowered node, childActions_lowered rest]
termination_by structural nodes

end

private theorem generate_lowered (token : String) (table : HoistTable) (forest : List Node) :
    generate token table (loweredAll forest) = generate token table forest := by
  unfold generate
  rw [forestActions_lowered]

/-- A normalized forest is rendered as the forest without its blank texts, from any table. What else
normalization does makes no difference anywhere, with blank texts in place or without. -/
theorem generate_normalized (token : String) (table : HoistTable) (forest : List Node) :
    normalizeAll forest = loweredAll (clearedAll forest) ∧
      generate token table (normalizeAll forest) = generate token table (clearedAll forest) ∧
      generate token table (loweredAll forest) = generate token table forest := by
  refine ⟨normalizeAll_eq forest, ?_, generate_lowered token table forest⟩
  rw [normalizeAll_eq]
  exact generate_lowered token table (clearedAll forest)

end Stencil.Proofs.NormalGeneration
