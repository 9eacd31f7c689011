import Stencil.Compile
import Stencil.Proofs.IndentedLines
import Stencil.Proofs.TemplateReading

/-! What a compiled module depends on: the options, and the nodes that were read, without the
places that they were written at. -/

namespace Stencil.Proofs.CompiledModule
open IndentedLines TemplateReading

theorem compile_ok {source output : String} {options : Options} :
    compile source options = .ok output ↔
      options.validate = .ok () ∧ ∃ found, Template.read source = .ok found ∧
        (compileForest (options.keyToken.resolve options.templateName source) .empty (normalizeAll found.body)
          options.functionName options.dataParam).1 = output := by
  unfold compile parse Template.readNamed
  constructor
  · intro compiled
    obtain ⟨_, valid, compiled⟩ := bind_ok.mp compiled
    obtain ⟨template, parsed, compiled⟩ := bind_ok.mp compiled
    obtain ⟨named, read, normal⟩ := bind_ok.mp parsed
    cases compiled
    cases normal
    split at read
    next found accepted =>
      cases read
      exact ⟨mapError_ok.mp valid, found, accepted, rfl⟩
    next => cases read
  · intro given
    obtain ⟨valid, found, accepted, same⟩ := given
    subst same
    rw [valid, accepted]
    rfl

theorem compileForest_lines (token : String) (table : HoistTable) (forest : List Node) (functionName dataParam : String) :
    (compileForest token table forest functionName dataParam).1 =
      moduleText ((forestLines token 0 table forest).2.addLiteral ("var " ++ targetName))
        ((forestLines token 0 table forest).1.map Line.text) functionName dataParam := by
  simp only [compileForest, generate_lines]

private theorem spanlessAll_length (nodes : List Node) : (spanlessAll nodes).length = nodes.length := by
  induction nodes with
  | nil => rfl
  | cons node rest ih => simp [spanlessAll, ih]

mutual

private theorem actions_spanless (node : Node) (token : String) (key : Option Key) (table : HoistTable) :
    (spanless node).actions token key table = node.actions token key table := by
  match node with
  | .text content => rfl
  | .script code hoisted => rfl
  | .loop spec children span =>
    simp only [spanless, Node.actions, childActions_spanless children, spanlessAll_length]
  | .element tag attributes children loop guard span =>
    cases guard with
    | none => simp only [spanless, Node.actions, Option.map_none, forestActions_spanless children]
    | some guard => simp only [spanless, Node.actions, Option.map_some, forestActions_spanless children, underGuard]
termination_by structural node

private theorem forestActions_spanless (nodes : List Node) (token : String) (table : HoistTable) :
    forestActions token table (spanlessAll nodes) = forestActions token table nodes := by
  match nodes with
  | [] => rfl
  | node :: rest => simp only [spanlessAll, forestActions, actions_spanless node, forestActions_spanless rest]
termination_by structural nodes

private theorem childActions_spanless (nodes : List Node) (token : String) (count ordinal : Nat) (table : HoistTable) :
    childActions token count ordinal table (spanlessAll nodes) = childActions token count ordinal table nodes := by
  match nodes with
  | [] => rfl
  | node :: rest => simp only [spanlessAll, childActions, actions_spanless node, childActions_spanless rest]
termination_by structural nodes

end

private theorem isBlankText_spanless (node : Node) : (spanless node).isBlankText = node.isBlankText := by
  cases node <;> rfl

mutual

private theorem normalize_spanless (node : Node) : (spanless node).normalize = spanless node.normalize := by
  match node with
  | .text content => rfl
  | .script code hoisted => rfl
  | .loop spec children span => simp only [spanless, Node.normalize, normalizeAll_spanless children]
  | .element tag attributes children loop guard span =>
    cases loop with
    | none => simp only [spanless, Node.normalize, normalizeAll_spanless children]
    | some spec => simp only [spanless, spanlessAll, Node.normalize, normalizeAll_spanless children]
termination_by structural node

theorem normalizeAll_spanless (nodes : List Node) : normalizeAll (spanlessAll nodes) = spanlessAll (normalizeAll nodes) := by
  match nodes with
  | [] => rfl
  | node :: rest =>
    simp only [spanlessAll, normalizeAll, isBlankText_spanless, normalize_spanless node, normalizeAll_spanless rest]
    split <;> rfl
termination_by structural nodes

end

/-- Forests that are equal up to spans have the same module. -/
theorem compileForest_spanless {first second : List Node} (same : spanlessAll first = spanlessAll second)
    (token : String) (table : HoistTable) (functionName dataParam : String) :
    compileForest token table first functionName dataParam = compileForest token table second functionName dataParam := by
  have actions : forestActions token table first = forestActions token table second := by
    rw [← forestActions_spanless first, same, forestActions_spanless]
  simp only [compileForest, generate, actions]

end Stencil.Proofs.CompiledModule
