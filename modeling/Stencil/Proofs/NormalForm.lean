import Stencil.Proofs.TemplateInvariant
import Stencil.Template.Normal

/-! The normal form of templates. Normalization makes every template normal and leaves alone those that
are, so a second time it does nothing; and what a template says, in the order in which it says it, is
the same before and after. -/

namespace Stencil.Proofs.NormalForm
open TemplateInvariant (within withinAll)
open Text (isBlank Span)

/-- What is wanted of a node, apart from the nodes inside of it. -/
def Settled : Node → Prop
  | .text content => ∃ c ∈ content.toList, isBlank c = false
  | .element _ _ _ loop _ _ => loop = none
  | .loop .. => True
  | .script .. => True

def Normal (nodes : List Node) : Prop := ∀ node ∈ withinAll nodes, Settled node

private theorem normal_nil : Normal [] := by simp [Normal, withinAll]

private theorem normal_cons {node : Node} {rest : List Node} :
    Normal (node :: rest) ↔ (∀ inner ∈ within node, Settled inner) ∧ Normal rest := by
  simp only [Normal, withinAll, List.forall_mem_append]

private theorem within_element {tag : String} {attributes : List Attribute} {children : List Node}
    {loop : Option LoopSpec} {guard : Option Guard} {span : Span} :
    (∀ inner ∈ within (.element tag attributes children loop guard span), Settled inner) ↔
      loop = none ∧ Normal children := by
  simp only [within, List.forall_mem_cons, Settled, Normal]

private theorem within_loop {spec : LoopSpec} {children : List Node} {span : Span} :
    (∀ inner ∈ within (.loop spec children span), Settled inner) ↔ Normal children := by
  simp only [within, List.forall_mem_cons, Settled, Normal, true_and]

private theorem within_text {content : String} :
    (∀ inner ∈ within (.text content), Settled inner) ↔ (Node.text content).isBlankText = false := by
  simp only [within, List.forall_mem_singleton, Settled, Node.isBlankText, Text.isBlankText, List.all_eq_false,
    Bool.not_eq_true]

private theorem within_script {code : String} {hoisted : Bool} :
    ∀ inner ∈ within (.script code hoisted), Settled inner := by
  simp only [within, List.forall_mem_singleton, Settled]

mutual

private theorem normalize_settled (node : Node) (visible : node.isBlankText = false) :
    ∀ inner ∈ within node.normalize, Settled inner := by
  match node with
  | .text content => exact within_text.mpr visible
  | .script code hoisted => exact within_script
  | .loop spec children span => exact within_loop.mpr (normalizeAll_normal children)
  | .element tag attributes children none guard span =>
    exact within_element.mpr ⟨rfl, normalizeAll_normal children⟩
  | .element tag attributes children (some spec) guard span =>
    refine within_loop.mpr (normal_cons.mpr ⟨?_, normal_nil⟩)
    exact within_element.mpr ⟨rfl, normalizeAll_normal children⟩
termination_by structural node

private theorem normalizeAll_normal (nodes : List Node) : Normal (normalizeAll nodes) := by
  match nodes with
  | [] => exact normal_nil
  | node :: rest =>
    unfold normalizeAll
    split
    next => exact normalizeAll_normal rest
    next visible =>
      exact normal_cons.mpr ⟨normalize_settled node (by simpa using visible), normalizeAll_normal rest⟩
termination_by structural nodes

end

private theorem settled_visible {node : Node} (settled : ∀ inner ∈ within node, Settled inner) :
    node.isBlankText = false := by
  cases node with
  | text content => exact within_text.mp settled
  | element tag attributes children loop guard span => rfl
  | loop spec children span => rfl
  | script code hoisted => rfl

mutual

private theorem normalize_of_settled (node : Node) (settled : ∀ inner ∈ within node, Settled inner) :
    node.normalize = node := by
  match node with
  | .text content => rfl
  | .script code hoisted => rfl
  | .loop spec children span =>
    rw [Node.normalize, normalizeAll_of_normal children (within_loop.mp settled)]
  | .element tag attributes children loop guard span =>
    obtain ⟨rfl, inside⟩ := within_element.mp settled
    rw [Node.normalize, normalizeAll_of_normal children inside]
termination_by structural node

private theorem normalizeAll_of_normal (nodes : List Node) (normal : Normal nodes) : normalizeAll nodes = nodes := by
  match nodes with
  | [] => rfl
  | node :: rest =>
    obtain ⟨first, later⟩ := normal_cons.mp normal
    rw [normalizeAll, settled_visible first, normalize_of_settled node first, normalizeAll_of_normal rest later]
    rfl
termination_by structural nodes

end

private theorem normalizeAll_fixed {nodes : List Node} : normalizeAll nodes = nodes ↔ Normal nodes := by
  constructor
  · intro fixed
    have normal := normalizeAll_normal nodes
    rwa [fixed] at normal
  · exact normalizeAll_of_normal nodes

/-- What a node says by itself. -/
inductive Saying where
  | text (content : String)
  | script (code : String) (hoisted : Bool)
  | element (tag : String) (attributes : List Attribute) (guard : Option Guard) (span : Span)
  | loop (spec : LoopSpec) (span : Span)
deriving DecidableEq, Repr

mutual

/-- What a node and the nodes inside of it say, in document order. Blank texts say nothing, and a loop on
an element is said before the element. -/
def sayings : Node → List Saying
  | .text content => if Text.isBlankText content then [] else [.text content]
  | .script code hoisted => [.script code hoisted]
  | .loop spec children span => .loop spec span :: sayingsAll children
  | .element tag attributes children loop guard span =>
    loop.toList.map (.loop · span) ++ .element tag attributes guard span :: sayingsAll children

def sayingsAll : List Node → List Saying
  | [] => []
  | node :: rest => sayings node ++ sayingsAll rest

end

private theorem sayings_blank {node : Node} (blank : node.isBlankText = true) : sayings node = [] := by
  cases node with
  | text content =>
    simp only [Node.isBlankText] at blank
    simp only [sayings, blank, ite_true]
  | element tag attributes children loop guard span => cases blank
  | loop spec children span => cases blank
  | script code hoisted => cases blank

mutual

private theorem normalize_sayings (node : Node) : sayings node.normalize = sayings node := by
  match node with
  | .text content => rfl
  | .script code hoisted => rfl
  | .loop spec children span => simp only [Node.normalize, sayings, normalizeAll_sayings children]
  | .element tag attributes children none guard span =>
    simp only [Node.normalize, sayings, normalizeAll_sayings children]
  | .element tag attributes children (some spec) guard span =>
    simp only [Node.normalize, sayings, sayingsAll, normalizeAll_sayings children, Option.toList, List.map_nil,
      List.map_cons, List.nil_append, List.append_nil, List.singleton_append]
termination_by structural node

private theorem normalizeAll_sayings (nodes : List Node) : sayingsAll (normalizeAll nodes) = sayingsAll nodes := by
  match nodes with
  | [] => rfl
  | node :: rest =>
    unfold normalizeAll
    split
    next blank => rw [normalizeAll_sayings rest, sayingsAll, sayings_blank blank, List.nil_append]
    next => rw [sayingsAll, normalize_sayings node, normalizeAll_sayings rest, sayingsAll]
termination_by structural nodes

end

/-- What normalization does to any template, read or made by hand. -/
structure Normalizes (before after : Template) : Prop where
  normal : Normal after.body
  fixed : after = before ↔ Normal before.body
  idempotent : after.normalize = after
  path : after.path = before.path
  sayings : sayingsAll after.body = sayingsAll before.body

theorem template_normalizes (template : Template) : Normalizes template template.normalize where
  normal := normalizeAll_normal template.body
  fixed := by
    rw [← normalizeAll_fixed]
    constructor
    · intro same
      exact congrArg Template.body same
    · intro same
      rw [Template.normalize, same]
  idempotent := by
    have again := normalizeAll_of_normal _ (normalizeAll_normal template.body)
    rw [Template.normalize, Template.normalize, again]
  path := rfl
  sayings := normalizeAll_sayings template.body

end Stencil.Proofs.NormalForm
