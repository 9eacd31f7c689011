import Stencil.Error
import Stencil.Render.Generate
import Stencil.Render.Module
import Stencil.Template.Normal
import Stencil.Template.Reader

/-! Compilation of templates to modules. -/

namespace Stencil

/-- Reads a template under a name, which becomes its path and is part of error reports. -/
def Template.readNamed (source : String) (name : Option String) : Except Error Template :=
  match Template.read source with
  | .ok template => .ok { template with path := name }
  | .error fault => .error (.template fault (some { name, source }))

/-- Reads and normalizes a template. Its options need not be valid for that. -/
def parse (source : String) (options : Options) : Except Error Template := do
  let template ← Template.readNamed source options.templateName
  return template.normalize

/-- The module of a forest. The declaration of the loop variable comes behind the literals
of the forest, and stays in the table with them. -/
def compileForest (token : String) (table : HoistTable) (forest : List Node)
    (functionName dataParam : String) : String × HoistTable :=
  let (statements, table) := generate token table forest
  let table := table.addLiteral ("var " ++ targetName)
  (moduleText table statements functionName dataParam, table)

/-- Compiles a template. The options are validated before the source is looked at. -/
def compile (source : String) (options : Options) : Except Error String := do
  options.validate.mapError .options
  let template ← parse source options
  let token := options.keyToken.resolve options.templateName source
  return (compileForest token .empty template.body options.functionName options.dataParam).1

end Stencil
