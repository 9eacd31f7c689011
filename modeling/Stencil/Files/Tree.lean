import Stencil.Files.Path

/-! File trees: directories and files by their location, with a working directory that
relative paths start from. There are no links, so a location has one name. -/

namespace Stencil

/-- The names that lead to a file or directory from the root. -/
abbrev Location := List String

inductive Entry where
  | directory
  | file (content : List UInt8)
deriving DecidableEq, Repr, Inhabited

inductive FileFault where
  | notFound
  | alreadyExists
  | denied
  | notDirectory
  | isDirectory
  | nameTooLong
  | nulInName
  | notText
deriving DecidableEq, Repr, Inhabited

def FileFault.message : FileFault → String
  | .notFound => "No such file or directory (os error 2)"
  | .alreadyExists => "File exists (os error 17)"
  | .denied => "Permission denied (os error 13)"
  | .notDirectory => "Not a directory (os error 20)"
  | .isDirectory => "Is a directory (os error 21)"
  | .nameTooLong => "File name too long (os error 36)"
  | .nulInName => "file name contained an unexpected NUL byte"
  | .notText => "stream did not contain valid UTF-8"

/-- The text that bytes encode in UTF-8, if they do. -/
def textOf? (content : List UInt8) : Option String := String.fromUTF8? ⟨content.toArray⟩

structure FileTree where
  entries : List (Location × Entry)
  workingDir : Location
deriving Inhabited

namespace FileTree

/-- The root and the working directory are directories of every tree. -/
def entry? (tree : FileTree) (location : Location) : Option Entry :=
  if location = [] ∨ location = tree.workingDir then some .directory
  else tree.entries.lookup location

/-- Replaces the entry of a location, or adds one. -/
def putEntry (location : Location) (entry : Entry) :
    List (Location × Entry) → List (Location × Entry)
  | [] => [(location, entry)]
  | (key, old) :: rest =>
    if key = location then (key, entry) :: rest else (key, old) :: putEntry location entry rest

def put (tree : FileTree) (location : Location) (entry : Entry) : FileTree :=
  { tree with entries := putEntry location entry tree.entries }

/-- Where a segment of a path leads from a directory. The root is its own parent. -/
def step (location : Location) (segment : String) : Location :=
  if segment = "" ∨ segment = "." then location
  else if segment = ".." then location.dropLast
  else location ++ [segment]

/-- The most bytes that a name and a whole path can have. -/
def nameLimit : Nat := 255

def pathLimit : Nat := 4095

/-- Follows segments. Every segment is looked up in a directory, also one that stays there,
but what the last one leads to need not exist. -/
def follow (tree : FileTree) (location : Location) : List String → Except FileFault Location
  | [] => .ok location
  | segment :: rest =>
    match tree.entry? location with
    | none => .error .notFound
    | some (.file _) => .error .notDirectory
    | some .directory =>
      if nameLimit < segment.utf8ByteSize then .error .nameTooLong
      else follow tree (step location segment) rest

/-- The location that a path names. The empty path names none. -/
def locate (tree : FileTree) (path : Path) : Except FileFault Location :=
  if '\x00' ∈ path.text.toList then .error .nulInName
  else if pathLimit < path.text.utf8ByteSize then .error .nameTooLong
  else if path.text = "" then .error .notFound
  else tree.follow (if path.isAbsolute then [] else tree.workingDir) path.segments

/-- What a path names, which has to exist. -/
def find (tree : FileTree) (path : Path) : Except FileFault Entry := do
  match tree.entry? (← tree.locate path) with
  | none => .error .notFound
  | some entry => return entry

def contains (tree : FileTree) (path : Path) : Bool := (tree.find path).isOk

def isDirectory (tree : FileTree) (path : Path) : Bool :=
  match tree.find path with
  | .ok .directory => true
  | _ => false

def isFile (tree : FileTree) (path : Path) : Bool :=
  match tree.find path with
  | .ok (.file _) => true
  | _ => false

/-- The names in a directory. -/
def children (tree : FileTree) (path : Path) : List String :=
  match tree.locate path with
  | .error _ => []
  | .ok location => tree.entries.filterMap fun (inner, _) =>
    if inner.dropLast = location then inner.getLast? else none

def readText (tree : FileTree) (path : Path) : Except FileFault String := do
  match ← tree.find path with
  | .directory => .error .isDirectory
  | .file content =>
    match textOf? content with
    | none => .error .notText
    | some text => return text

/-- Writes a file, new or not, into a directory that exists. -/
def writeText (tree : FileTree) (path : Path) (text : String) : Except FileFault FileTree := do
  let location ← tree.locate path
  match tree.entry? location with
  | some .directory => .error .isDirectory
  | _ => return tree.put location (.file text.toUTF8.toList)

/-- Makes one directory. -/
def makeDirectory (tree : FileTree) (path : Path) : Except FileFault FileTree := do
  let location ← tree.locate path
  match tree.entry? location with
  | some _ => .error .alreadyExists
  | none => return tree.put location .directory

/-- Makes a directory and the ones it is in, as far as they are missing. The budget bounds
how many these are. Directories made before a failure stay. -/
def ensureWithin (tree : FileTree) (path : Path) : Nat → FileTree × Option FileFault
  | 0 => (tree, some .notFound)
  | budget + 1 =>
    if path.text = "" then (tree, none)
    else match tree.makeDirectory path with
      | .ok tree => (tree, none)
      | .error .notFound =>
        match path.parent? with
        | none => (tree, some .notFound)
        | some parent =>
          match ensureWithin tree parent budget with
          | (tree, some fault) => (tree, some fault)
          | (tree, none) =>
            match tree.makeDirectory path with
            | .ok tree => (tree, none)
            | .error fault => if tree.isDirectory path then (tree, none) else (tree, some fault)
      | .error fault => if tree.isDirectory path then (tree, none) else (tree, some fault)

def ensureDirectory (tree : FileTree) (path : Path) : FileTree × Option FileFault :=
  tree.ensureWithin path (path.segments.length + 1)

/-- Adds the directories of a location that are missing, given the names above them. -/
def plantDirectories (tree : FileTree) (above : Location) : List String → FileTree
  | [] => tree
  | name :: rest =>
    let location := above ++ [name]
    let tree := if (tree.entry? location).isSome then tree else tree.put location .directory
    plantDirectories tree location rest

/-- Adds a file and the directories it is in. -/
def plant (tree : FileTree) (location : Location) (content : List UInt8) : FileTree :=
  (tree.plantDirectories [] location.dropLast).put location (.file content)

/-- The entries of a tree that an earlier tree did not have, or not like this. -/
def changesSince (earlier tree : FileTree) : List (Location × Entry) :=
  tree.entries.filter fun (location, entry) => earlier.entry? location ≠ some entry

end FileTree

end Stencil
