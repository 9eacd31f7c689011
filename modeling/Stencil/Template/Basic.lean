import Stencil.Text.Blank
import Stencil.Text.Place

/-! Templates: a forest of elements, texts, loops and scripts. An element may carry a loop
and a guard of its own, taken from its attributes; a loop that wraps several nodes is a node
itself. -/

namespace Stencil

open Text (Span)

/-- A static attribute. One that was written without a value has the empty value. -/
structure Attribute where
  name : String
  value : String
deriving DecidableEq, Repr, Inhabited

/-- What a loop runs over, the name of the current item, and the expression that tells
iterations apart where the position will not do. -/
structure LoopSpec where
  item : String
  key : Option String
  iterable : String
deriving DecidableEq, Repr, Inhabited

/-- A condition that an element is rendered under, and where it was written. -/
structure Guard where
  condition : String
  span : Span
deriving DecidableEq, Repr, Inhabited

inductive Node where
  | element (tag : String) (attributes : List Attribute) (children : List Node)
      (loop : Option LoopSpec) (guard : Option Guard) (span : Span)
  | text (content : String)
  | loop (spec : LoopSpec) (children : List Node) (span : Span)
  | script (code : String) (hoisted : Bool)
deriving Repr, Inhabited

mutual

/-- Nodes are compared part by part, children included. -/
def Node.decEq : (first second : Node) → Decidable (first = second)
  | .element tag attributes children spec guard span,
    .element tag' attributes' children' spec' guard' span' =>
    have := Node.decEqAll children children'
    decidable_of_iff (tag = tag' ∧ attributes = attributes' ∧ children = children' ∧
      spec = spec' ∧ guard = guard' ∧ span = span') (by simp)
  | .text content, .text content' => decidable_of_iff (content = content') (by simp)
  | .loop spec children span, .loop spec' children' span' =>
    have := Node.decEqAll children children'
    decidable_of_iff (spec = spec' ∧ children = children' ∧ span = span') (by simp)
  | .script code hoisted, .script code' hoisted' =>
    decidable_of_iff (code = code' ∧ hoisted = hoisted') (by simp)
  | .element .., .text _ | .element .., .loop .. | .element .., .script ..
  | .text _, .element .. | .text _, .loop .. | .text _, .script ..
  | .loop .., .element .. | .loop .., .text _ | .loop .., .script ..
  | .script .., .element .. | .script .., .text _ | .script .., .loop .. => isFalse nofun

def Node.decEqAll : (first second : List Node) → Decidable (first = second)
  | [], [] => isTrue rfl
  | node :: rest, node' :: rest' =>
    have := Node.decEq node node'
    have := Node.decEqAll rest rest'
    decidable_of_iff (node = node' ∧ rest = rest') (by simp)
  | [], _ :: _ | _ :: _, [] => isFalse nofun

end

instance : DecidableEq Node := Node.decEq

structure Template where
  body : List Node
  path : Option String
deriving DecidableEq, Repr, Inhabited

namespace Node

def isBlankText : Node → Bool
  | .text content => Text.isBlankText content
  | _ => false

end Node

end Stencil
