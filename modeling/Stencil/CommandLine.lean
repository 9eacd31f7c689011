import Stencil.Files.Build

/-! Arguments of the command line. There is one command, `build`, whose inputs are paths and
patterns; options may stand anywhere behind it. -/

namespace Stencil.CommandLine

structure Arguments where
  request : Request := { inputs := [] }
  config : Option String := none
deriving DecidableEq, Repr, Inhabited

inductive Fault where
  | noCommand
  | unknownCommand (name : String)
  | unknownOption (name : String)
  | missingValue (option : String)
  | badValue (option value : String)
  | noInputs
deriving DecidableEq, Repr, Inhabited

def usage : String :=
  "usage: build <inputs>... [-o|--output DIR] [--emit js|ast] [--name NAME] [-c|--config FILE] " ++
    "[--log-level LEVEL]"

def Fault.message : Fault → String
  | .noCommand => usage
  | .unknownCommand name => "unrecognized subcommand '" ++ name ++ "'"
  | .unknownOption name => "unexpected argument '" ++ name ++ "' found"
  | .missingValue option => "a value is required for '" ++ option ++ "' but none was supplied"
  | .badValue option value => "invalid value '" ++ value ++ "' for '" ++ option ++ "'"
  | .noInputs => "the inputs to build are missing"

/-- Takes an option with its value. -/
def withOption (arguments : Arguments) (option value : String) : Except Fault Arguments :=
  if option = "-o" ∨ option = "--output" then
    .ok { arguments with request := { arguments.request with outputDir := some value } }
  else if option = "--emit" then
    match Emit.ofName? value with
    | none => .error (.badValue option value)
    | some emit => .ok { arguments with request := { arguments.request with emit := some emit } }
  else if option = "--name" then
    .ok { arguments with request := { arguments.request with functionName := some value } }
  else if option = "-c" ∨ option = "--config" then .ok { arguments with config := some value }
  else if option = "--log-level" then .ok arguments
  else .error (.unknownOption option)

def withInput (arguments : Arguments) (input : String) : Arguments :=
  { arguments with
    request := { arguments.request with inputs := arguments.request.inputs ++ [input] } }

def isOption (word : String) : Bool :=
  match word.toList with
  | '-' :: _ :: _ => true
  | _ => false

/-- A long option that carries its value behind an equals sign. -/
def splitOption? (word : String) : Option (String × String) :=
  let chars := word.toList
  let name := chars.takeWhile (· ≠ '=')
  match chars.dropWhile (· ≠ '=') with
  | [] => none
  | _ :: value => some (String.ofList name, String.ofList value)

def readWords (arguments : Arguments) : List String → Except Fault Arguments
  | [] => .ok arguments
  | word :: rest =>
    if isOption word then
      match splitOption? word with
      | some (option, value) => do readWords (← withOption arguments option value) rest
      | none =>
        match rest with
        | [] => .error (.missingValue word)
        | value :: rest => do readWords (← withOption arguments word value) rest
    else readWords (withInput arguments word) rest

/-- Reads the words behind the name of the program. -/
def read : List String → Except Fault Arguments
  | [] => .error .noCommand
  | command :: rest =>
    if command = "build" then do
      let arguments ← readWords {} rest
      if arguments.request.inputs.isEmpty then .error .noInputs else return arguments
    else .error (.unknownCommand command)

end Stencil.CommandLine
