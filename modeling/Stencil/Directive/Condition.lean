import Stencil.Directive.Fault
import Stencil.Text.Blank

/-! Conditions of guards: any balanced expression that is not blank. -/

namespace Stencil.Directive

open Text (trimChars)

/-- Reads a condition; the result is trimmed. -/
def readCondition (text : String) : Except Fault String :=
  match trimChars text.toList with
  | [] => .error .emptyCondition
  | trimmed => do
    (balanceFrom .code [] trimmed).mapError .condition
    return String.ofList trimmed

end Stencil.Directive
