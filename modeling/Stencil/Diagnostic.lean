import Stencil.Excerpt

/-! Error reports as they are shown. -/

namespace Stencil

inductive Diagnostic where
  | parse (message : String) (line column : Nat) (file : Option String) (excerpt : Option Excerpt)
  | expression (message quoted : String) (line column : Nat)
  | options (message : String)
deriving DecidableEq, Repr, Inhabited

namespace Diagnostic

/-- The words that say where an error is. -/
def location (line column : Nat) : String :=
  " at line " ++ line.repr ++ ", column " ++ column.repr

def text : Diagnostic → String
  | .parse message line column file excerpt =>
    "Parse error" ++ (file.map (" in " ++ ·)).getD "" ++ ": " ++ message ++ location line column ++
      (excerpt.map fun excerpt => "\n" ++ excerpt.render).getD ""
  | .expression message quoted line column =>
    "Expression syntax error: " ++ message ++ " in `" ++ quoted ++ "`" ++ location line column
  | .options message => "Invalid options: " ++ message

/-- Line and column, where the error has a place in a source. -/
def position : Diagnostic → Option (Nat × Nat)
  | .parse _ line column _ _ => some (line, column)
  | .expression _ _ line column => some (line, column)
  | .options _ => none

end Diagnostic

end Stencil
