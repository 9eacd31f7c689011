import Stencil.Options
import Stencil.Toml.Reader

/-! Build configurations. The table `compile` holds compile options, the table `build` where
and what to write; unknown keys are ignored. A document that cannot be read is refused before
the options are validated. -/

namespace Stencil

/-- What a build writes for a template: its module, or its nodes. -/
inductive Emit where
  | module
  | nodes
deriving DecidableEq, Repr, Inhabited

def Emit.extension : Emit → String
  | .module => "js"
  | .nodes => "json"

/-- The name by which requests and configurations call for an output. -/
def Emit.ofName? (name : String) : Option Emit :=
  if name = "js" then some .module
  else if name = "ast" then some .nodes
  else none

structure Config where
  options : Options := {}
  outputDir : Option String := none
  emit : Emit := .module
deriving DecidableEq, Repr, Inhabited

inductive Config.Fault where
  | document
  | options (fault : Options.Fault)
deriving DecidableEq, Repr, Inhabited

namespace Config

/-- The file that is read where no other is named, if it exists. -/
def defaultFile : String := "superviews.toml"

/-- A string that may be missing. -/
def text? (table : Toml.Table) (name : String) : Option (Option String) :=
  match table.lookup name with
  | none => some none
  | some value => value.string?.map some

/-- A record that may be missing, given the names of its fields. -/
def part? (root : Toml.Table) (name : String) (names : List String) : Option Toml.Table :=
  match root.lookup name with
  | none => some []
  | some value => value.record? names

def buildNames : List String := ["output_dir", "emit"]

def optionsOf? (table : Toml.Table) : Option Options := do
  let fallback : Options := {}
  let templateName ← text? table "template_name"
  let functionName ← text? table "function_name"
  let dataParam ← text? table "data_param"
  let keyToken ← text? table "key_token"
  return { templateName
           functionName := functionName.getD fallback.functionName
           dataParam := dataParam.getD fallback.dataParam
           keyToken := (keyToken.map KeyToken.fixed).getD .derived }

/-- An output is called for by its name, or by a table whose only key is its name and has
nothing in it. -/
def emitOf? : Toml → Option Emit
  | .string name => Emit.ofName? name
  | value =>
    match value.fields? with
    | some [(name, content)] => if content.isHollow then Emit.ofName? name else none
    | _ => none

def emitField? (table : Toml.Table) : Option Emit :=
  match table.lookup "emit" with
  | none => some .module
  | some value => emitOf? value

def ofTable? (root : Toml.Table) : Option Config := do
  let options ← optionsOf? (← part? root "compile" Options.fieldNames)
  let build ← part? root "build" buildNames
  return { options, outputDir := (← text? build "output_dir"), emit := (← emitField? build) }

/-- Reads a configuration and validates its options. -/
def read (document : String) : Except Fault Config :=
  match (Toml.read? document).bind ofTable? with
  | none => .error .document
  | some config => do
    config.options.validate.mapError .options
    return config

end Config

end Stencil
