import Stencil.CommandLine

/-! The command line program. It takes a picture of the part of the disk that a build can
look at, runs the build on that picture, and carries out on the disk what has changed in it. -/

namespace Stencil.Main

/-- Adds what stands on the disk at a path, and at the directories above it, to a picture.
Files are added without their content. -/
def probe (tree : FileTree) (path : Path) : IO FileTree := do
  let base ← IO.currentDir
  let mut tree := tree
  let mut location := if path.isAbsolute then [] else tree.workingDir
  let mut current := if path.isAbsolute then base / "/" else base
  for segment in path.segments do
    location := FileTree.step location segment
    current := if segment.isEmpty then current else current / segment
    if ← current.isDir then
      tree := tree.put location .directory
    else if ← current.pathExists then
      tree := tree.put location (.file [])
  return tree

/-- Adds everything below a directory to a picture. -/
partial def scan (tree : FileTree) (path : Path) : IO FileTree := do
  let mut tree ← probe tree path
  let directory := (← IO.currentDir) / path.text
  if ← directory.isDir then
    for entry in ← directory.readDir do
      tree ← scan tree (Glob.enter path entry.fileName)
  return tree

/-- Adds the content of a file to a picture, if it can be read. -/
def load (tree : FileTree) (path : Path) : IO FileTree := do
  let tree ← probe tree path
  match tree.locate path with
  | .error _ => return tree
  | .ok location =>
    match tree.entry? location with
    | some (.file _) =>
      let content ← IO.FS.readBinFile ((← IO.currentDir) / path.text)
      return tree.put location (.file content.toList)
    | _ => return tree

/-- Where a pattern starts to look for files. -/
def baseOf (pattern : String) : Path :=
  match Build.literalBase pattern with
  | [] => Glob.here
  | base => Path.ofComponents base

/-- The part of the disk that a build can look at. -/
def picture (arguments : CommandLine.Arguments) : IO FileTree := do
  let base ← IO.currentDir
  let workingDir := base.components.filter (· ≠ "")
  let mut tree := ({ entries := [], workingDir } : FileTree).plantDirectories [] workingDir
  tree ← load tree ⟨arguments.config.getD Config.defaultFile⟩
  for input in arguments.request.inputs do
    tree ← if Pattern.isPattern input then scan tree (baseOf input) else probe tree ⟨input⟩
  if let .ok inputs := Build.resolve tree arguments.request.inputs then
    for input in inputs do
      tree ← load tree input.path
  return tree

/-- Adds the directories and files that the outputs of a build may meet. -/
def withTargets (tree : FileTree) (request : Request) (config : Config) : IO FileTree := do
  let mut tree := tree
  if let some dir := request.outputDir.orElse fun _ => config.outputDir then
    if let .ok inputs := Build.resolve tree request.inputs then
      for input in inputs do
        tree ← probe tree (Build.targetOf ⟨dir⟩ (request.emit.getD config.emit) input)
  return tree

/-- Carries out on the disk what a build has changed. -/
def apply (changes : List (Location × Entry)) : IO Unit := do
  let root := (← IO.currentDir) / "/"
  for (location, entry) in changes do
    let path := location.foldl (· / ·) root
    match entry with
    | .directory => IO.FS.createDir path
    | .file content => IO.FS.writeBinFile path ⟨content.toArray⟩

def complain (message : String) : IO UInt32 := do
  IO.eprintln ("Error: " ++ message)
  return 1

def loadMessage : Build.LoadFault → String
  | .file fault => fault.message
  | .config .document => "the configuration cannot be read"
  | .config (.options fault) => (Error.options fault).diagnostic.text

def run (arguments : CommandLine.Arguments) : IO UInt32 := do
  let started ← IO.monoMsNow
  let tree ← picture arguments
  match Build.loadConfig tree arguments.config with
  | .error fault => complain (loadMessage fault)
  | .ok config =>
    let tree ← withTargets tree arguments.request config
    let outcome := Build.run tree arguments.request config
    apply (tree.changesSince outcome.tree)
    let elapsed := ((← IO.monoMsNow) - started).repr ++ "ms"
    for printed in outcome.printed do
      IO.print (printed.text elapsed)
    match outcome.result with
    | .ok _ => return 0
    | .error fault => complain fault.message

end Stencil.Main

def main (words : List String) : IO UInt32 := do
  match Stencil.CommandLine.read words with
  | .ok arguments => Stencil.Main.run arguments
  | .error fault =>
    IO.eprintln ("error: " ++ fault.message)
    return 2
