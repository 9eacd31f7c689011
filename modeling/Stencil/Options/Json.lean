import Stencil.Json.Basic
import Stencil.Options

/-! Compile options as JSON values. A missing field has its default; only the template name
and the key token may be null. An array gives the first fields in the order in which they are
written. -/

namespace Stencil.Options

/-- A field that has a default and may not be null. -/
def textOr (fallback : String) : Option Json → Option String
  | none => some fallback
  | some json => json.string?

def toJson (options : Options) : Json :=
  .object [("template_name", .ofOption .string options.templateName),
    ("function_name", .string options.functionName), ("data_param", .string options.dataParam),
    ("key_token", match options.keyToken with
      | .derived => .null
      | .fixed token => .string token)]

def ofJson? (json : Json) : Option Options := do
  let fields ← json.openRecord? fieldNames
  let fallback : Options := {}
  let templateName ← Json.nullable? Json.string? (fields.lookup "template_name")
  let functionName ← textOr fallback.functionName (fields.lookup "function_name")
  let dataParam ← textOr fallback.dataParam (fields.lookup "data_param")
  let keyToken ← Json.nullable? Json.string? (fields.lookup "key_token")
  return { templateName, functionName, dataParam,
           keyToken := (keyToken.map KeyToken.fixed).getD .derived }

end Stencil.Options
