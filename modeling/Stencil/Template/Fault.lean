import Stencil.Directive.Fault
import Stencil.Markup.Fault

/-! What can be wrong with a template. Every fault has a place: that of the first character
that cannot be read, of the attribute in question, or of the element that lacks one. -/

namespace Stencil

inductive Template.Fault where
  | markup (fault : Markup.Fault) (line column : Nat)
  | directive (fault : Directive.Fault) (expression : String) (line column : Nat)
deriving DecidableEq, Repr, Inhabited

end Stencil
