import Stencil.Directive.Identifier
import Stencil.KeyToken

/-! Compile options. The two names are written into the module as they are, so they have to
be identifiers. -/

namespace Stencil

structure Options where
  templateName : Option String := none
  functionName : String := "description"
  dataParam : String := "data"
  keyToken : KeyToken := .derived
deriving DecidableEq, Repr, Inhabited

/-- The names of the fields in documents, in the order of the fields. -/
def Options.fieldNames : List String := ["template_name", "function_name", "data_param", "key_token"]

inductive Options.Fault where
  | functionName (name : String)
  | dataParam (name : String)
deriving DecidableEq, Repr, Inhabited

def Options.Fault.message : Options.Fault → String
  | .functionName name => "function name `" ++ name ++ "` is not an identifier"
  | .dataParam name => "data parameter `" ++ name ++ "` is not an identifier"

def Options.validate (options : Options) : Except Options.Fault Unit :=
  if !Directive.isIdentifier options.functionName then .error (.functionName options.functionName)
  else if !Directive.isIdentifier options.dataParam then .error (.dataParam options.dataParam)
  else .ok ()

end Stencil
