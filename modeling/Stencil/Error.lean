import Stencil.Diagnostic
import Stencil.Options
import Stencil.Template.Fault

/-! Why a compilation failed. -/

namespace Stencil

/-- Where a faulty template came from: its name, if it has one, and its source. -/
structure Origin where
  name : Option String
  source : String
deriving DecidableEq, Repr, Inhabited

inductive Error where
  | template (fault : Template.Fault) (origin : Option Origin)
  | options (fault : Options.Fault)
deriving DecidableEq, Repr, Inhabited

/-- A fault of the markup is reported with the name and an excerpt of its source, if these
are known; a fault of a directive quotes the directive instead. -/
def Error.diagnostic : Error → Diagnostic
  | .template (.markup fault line column) origin =>
    .parse fault.message line column (origin.bind Origin.name)
      (origin.map fun origin => Excerpt.around origin.source line column)
  | .template (.directive fault expression line column) _ =>
    .expression fault.message expression line column
  | .options fault => .options fault.message

end Stencil
