import Stencil.Render.Hoist

/-! The text of a module: a function that runs the preamble once and returns the render
function. -/

namespace Stencil

def moduleText (table : HoistTable) (statements : List String) (functionName dataParam : String) :
    String :=
  ";(function () \x7b\n" ++ table.preamble ++ "\n\nreturn function " ++ functionName ++ " (" ++
    dataParam ++ ") \x7b\n" ++ "\n".intercalate statements ++ "\n\x7d\n\x7d)()\n"

end Stencil
