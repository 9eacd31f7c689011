import Stencil.Render.Statement

/-! Printing of statements. A printer writes one statement after the other, each on a line that
is indented by its level at that time. -/

namespace Stencil

inductive Action where
  | write (statement : Statement)
  | indent
  | dedent
deriving DecidableEq, Repr, Inhabited

/-- The lines so far, and the level of the next one. -/
structure Printer where
  lines : Array Line := #[]
  level : Nat := 0
deriving DecidableEq, Repr, Inhabited

namespace Printer

def write (printer : Printer) (statement : Statement) : Printer :=
  { printer with lines := printer.lines.push ⟨printer.level, statement⟩ }

def indent (printer : Printer) : Printer := { printer with level := printer.level + 1 }

/-- Level zero stays as it is. -/
def dedent (printer : Printer) : Printer :=
  if 0 < printer.level then { printer with level := printer.level - 1 } else printer

def perform (printer : Printer) : Action → Printer
  | .write statement => printer.write statement
  | .indent => printer.indent
  | .dedent => printer.dedent

def run (printer : Printer) (actions : List Action) : Printer := actions.foldl perform printer

end Printer

end Stencil
