import Stencil.Template.Basic

/-! The normal form of a template: no blank texts, and no loops on elements. A loop on an
element becomes a loop around that element alone. -/

namespace Stencil

mutual

def Node.normalize : Node → Node
  | .element tag attributes children loop guard span =>
    let element := .element tag attributes (normalizeAll children) none guard span
    match loop with
    | none => element
    | some spec => .loop spec [element] span
  | .loop spec children span => .loop spec (normalizeAll children) span
  | .text content => .text content
  | .script code hoisted => .script code hoisted

def normalizeAll : List Node → List Node
  | [] => []
  | node :: rest =>
    if node.isBlankText then normalizeAll rest else node.normalize :: normalizeAll rest

end

def Template.normalize (template : Template) : Template :=
  { template with body := normalizeAll template.body }

end Stencil
