import Stencil.Compile
import Stencil.Config
import Stencil.Files.Glob
import Stencil.Json.Printer
import Stencil.Template.Json
import Stencil.Text.Shown

/-! Builds: every template that is asked for is compiled and written below the output
directory, or to the standard output where there is none. Nothing is written before all
inputs and all targets are known. -/

namespace Stencil

structure Request where
  inputs : List String
  outputDir : Option String := none
  emit : Option Emit := none
  functionName : Option String := none
deriving DecidableEq, Repr, Inhabited

/-- A template file, and the path that its output gets below the output directory, apart from
the extension. -/
structure Input where
  path : Path
  relative : Path
deriving DecidableEq, Repr, Inhabited

inductive Build.Fault where
  | pattern (input : String) (fault : Glob.Fault)
  | nothingMatched (inputs : List String)
  | noDirectory (count : Nat)
  | sameTarget (first second target : Path)
  | unreadable (path : Path) (fault : FileFault)
  | compilation (path : Path) (error : Error)
  | parsing (path : Path) (error : Error)
  | noParent (path : Path) (fault : FileFault)
  | unwritable (path : Path) (fault : FileFault)
deriving DecidableEq, Repr, Inhabited

/-- What a build prints: an output, or a note about one. -/
inductive Build.Printed where
  | output (text : String)
  | wrote (target : Path)
  | complete (count : Nat)
deriving DecidableEq, Repr, Inhabited

/-- The tree a build leaves, what it prints, and how many templates it compiled. -/
structure Build.Outcome where
  tree : FileTree
  printed : List Build.Printed
  result : Except Build.Fault Nat

namespace Build

def Fault.message : Fault → String
  | .pattern input (.wrong fault) => "invalid pattern " ++ Text.shown input ++ ": " ++ fault.message
  | .pattern input (.entry path fault) =>
    "cannot expand " ++ Text.shown input ++ ": attempting to read `" ++ path.text ++
      "` resulted in an error: " ++ fault.message
  | .nothingMatched inputs => "no templates matched " ++ Text.shownList inputs
  | .noDirectory count =>
    count.repr ++ " templates matched; use --output to write them to a directory"
  | .sameTarget first second target =>
    first.text ++ " and " ++ second.text ++ " would both be written to " ++ target.text
  | .unreadable path fault => "cannot read " ++ path.text ++ ": " ++ fault.message
  | .compilation path error => "failed to compile " ++ path.text ++ ": " ++ error.diagnostic.text
  | .parsing path error => "failed to parse " ++ path.text ++ ": " ++ error.diagnostic.text
  | .noParent path fault => "cannot create " ++ path.text ++ ": " ++ fault.message
  | .unwritable path fault => "cannot write " ++ path.text ++ ": " ++ fault.message

/-- The text that is printed, given how the time that the build took is to be shown. -/
def Printed.text (elapsed : String) : Printed → String
  | .output text => text
  | .wrote target => "Wrote " ++ target.text ++ "\n"
  | .complete count =>
    "Build complete! " ++ count.repr ++ " template(s) compiled in " ++ elapsed ++ "\n"

/-- The name of a file alone, or the whole path where it ends in none. -/
def nameOf (path : Path) : Path := (path.fileName?.map Path.mk).getD path

/-- The components of a pattern before the first one with wildcards. -/
def literalBase (pattern : String) : List Component :=
  (Path.mk pattern).components.takeWhile fun component => !Pattern.isPattern component.text

/-- An input named by a path is written under its file name. -/
def plainInput (path : Path) : Input := { path, relative := nameOf path }

/-- An input matched by a pattern keeps its path below the literal base of the pattern, if it
is spelled like the base. -/
def matchedInput (pattern : String) (path : Path) : Input :=
  { path, relative := (path.below? (literalBase pattern)).getD (nameOf path) }

def inputsOf (matching : Glob.Matching) (tree : FileTree) (input : String) :
    Except Fault (List Input) :=
  if Pattern.isPattern input then
    match Glob.expand matching tree input with
    | .error fault => .error (.pattern input fault)
    | .ok found => .ok (found.map (matchedInput input))
  else .ok [plainInput ⟨input⟩]

def allInputs (matching : Glob.Matching) (tree : FileTree) : List String → Except Fault (List Input)
  | [] => .ok []
  | input :: rest => do
    let first ← inputsOf matching tree input
    let later ← allInputs matching tree rest
    return first ++ later

def resolve (tree : FileTree) (inputs : List String) (matching : Glob.Matching := Glob.entries) :
    Except Fault (List Input) := do
  let found ← allInputs matching tree inputs
  if found.isEmpty then .error (.nothingMatched inputs) else return found

/-- An input with the file that its output goes to. -/
structure Job where
  input : Input
  target : Path
deriving DecidableEq, Repr, Inhabited

def targetOf (dir : Path) (emit : Emit) (input : Input) : Path :=
  dir.join (input.relative.withExtension emit.extension)

/-- Paths that differ in their spelling alone name the same target. -/
def sameFile (first second : Path) : Bool := first.components = second.components

/-- Pairs inputs with their targets, of which no two may be the same, given the jobs so far. -/
def jobsFrom (dir : Path) (emit : Emit) (earlier : List Job) : List Input → Except Fault (List Job)
  | [] => .ok []
  | input :: rest =>
    let target := targetOf dir emit input
    match earlier.find? fun job => sameFile job.target target with
    | some job => .error (.sameTarget job.input.path input.path target)
    | none => do
      let job := { input, target }
      let later ← jobsFrom dir emit (earlier ++ [job]) rest
      return job :: later

def jobs (dir : Path) (emit : Emit) (inputs : List Input) : Except Fault (List Job) :=
  jobsFrom dir emit [] inputs

/-- The options for one file: its stem is the name of the template. -/
def optionsFor (request : Request) (config : Config) (path : Path) : Options :=
  { config.options with
    templateName := some (path.stem?.getD "template")
    functionName := request.functionName.getD config.options.functionName }

/-- The output for a source. -/
def outputOf (options : Options) (emit : Emit) (path : Path) (source : String) :
    Except Fault String :=
  match emit with
  | .module => (compile source options).mapError (.compilation path)
  | .nodes => do
    let template ← (parse source options).mapError (.parsing path)
    return template.toJson.pretty 0 ++ "\n"

/-- The output for a file of the tree. -/
def build (tree : FileTree) (request : Request) (config : Config) (emit : Emit) (path : Path) :
    Except Fault String := do
  let source ← (tree.readText path).mapError (.unreadable path)
  outputOf (optionsFor request config path) emit path source

/-- Makes the directory that a target is in. -/
def prepare (tree : FileTree) (target : Path) : FileTree × Option Fault :=
  match target.parent? with
  | none => (tree, none)
  | some parent =>
    let (tree, fault) := tree.ensureDirectory parent
    (tree, fault.map (.noParent parent))

/-- Does the jobs in turn, up to the first one that fails. What is written stays written. -/
def runJobs (request : Request) (config : Config) (emit : Emit) (tree : FileTree) :
    List Job → FileTree × List Printed × Option Fault
  | [] => (tree, [], none)
  | job :: rest =>
    match build tree request config emit job.input.path with
    | .error fault => (tree, [], some fault)
    | .ok text =>
      match prepare tree job.target with
      | (tree, some fault) => (tree, [], some fault)
      | (tree, none) =>
        match tree.writeText job.target text with
        | .error fault => (tree, [], some (.unwritable job.target fault))
        | .ok tree =>
          let (tree, printed, fault) := runJobs request config emit tree rest
          (tree, .wrote job.target :: printed, fault)

/-- A build without an output directory prints the output of its only input. -/
def runToOutput (tree : FileTree) (request : Request) (config : Config) (emit : Emit)
    (inputs : List Input) : Outcome :=
  match inputs with
  | [input] =>
    match build tree request config emit input.path with
    | .error fault => ⟨tree, [], .error fault⟩
    | .ok text => ⟨tree, [.output text], .ok 1⟩
  | _ => ⟨tree, [], .error (.noDirectory inputs.length)⟩

def runToDirectory (tree : FileTree) (request : Request) (config : Config) (emit : Emit)
    (dir : Path) (inputs : List Input) : Outcome :=
  match jobs dir emit inputs with
  | .error fault => ⟨tree, [], .error fault⟩
  | .ok jobs =>
    match runJobs request config emit tree jobs with
    | (tree, printed, some fault) => ⟨tree, printed, .error fault⟩
    | (tree, printed, none) => ⟨tree, printed ++ [.complete inputs.length], .ok inputs.length⟩

/-- Runs a build. What the request asks for goes before what the configuration says. -/
def run (tree : FileTree) (request : Request) (config : Config)
    (matching : Glob.Matching := Glob.entries) : Outcome :=
  match resolve tree request.inputs matching with
  | .error fault => ⟨tree, [], .error fault⟩
  | .ok inputs =>
    let emit := request.emit.getD config.emit
    match request.outputDir.orElse fun _ => config.outputDir with
    | none => runToOutput tree request config emit inputs
    | some dir => runToDirectory tree request config emit ⟨dir⟩ inputs

inductive LoadFault where
  | file (fault : FileFault)
  | config (fault : Config.Fault)
deriving DecidableEq, Repr, Inhabited

/-- The configuration in a file. A file that is named has to exist, the default one need
not. -/
def loadConfig (tree : FileTree) (path : Option String) : Except LoadFault Config :=
  let load (path : Path) : Except LoadFault Config := do
    let document ← (tree.readText path).mapError .file
    (Config.read document).mapError .config
  match path with
  | some path => load ⟨path⟩
  | none =>
    let path : Path := ⟨Config.defaultFile⟩
    if tree.contains path then load path else .ok {}

end Build

end Stencil
