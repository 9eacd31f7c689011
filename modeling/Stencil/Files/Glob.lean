import Stencil.Files.Pattern
import Stencil.Files.Tree

/-! Expansion of patterns over a file tree. A pattern is taken component by component: one
without wildcards is looked up, any other one is tried on every name in the directory. A path
that matches is spelled as the pattern leads to it, without doubled slashes and without
points at its start. -/

namespace Stencil

/-- A pattern for whole paths. One that ends in a slash matches directories only. -/
structure Glob where
  start : Path
  parts : List Pattern
  onlyDirectories : Bool
deriving DecidableEq, Repr, Inhabited

namespace Glob

/-- The directory that relative patterns start from. -/
def here : Path := ⟨"."⟩

/-- Parts between slashes; a slash at the end does not start another one. -/
def partsOf (text : List Char) : List String :=
  let parts := (Path.segmentsOf text).map String.ofList
  if parts.getLast? = some "" then parts.dropLast else parts

/-- Reads a pattern. The whole of it has to be right, and so has every part of it. -/
def read (text : String) : Except Pattern.Fault Glob := do
  let _ ← Pattern.read text
  let absolute := (Path.mk text).isAbsolute
  let body := if absolute then text.toList.drop 1 else text.toList
  let parts ← (partsOf body).mapM Pattern.read
  return { start := if absolute then ⟨"/"⟩ else here, parts,
           onlyDirectories := text.toList.getLast? = some '/' }

/-- The path to a name in a directory. -/
def enter (path : Path) (name : String) : Path :=
  if path.isCurrent then ⟨name⟩ else path.join ⟨name⟩

/-- Where a part without wildcards leads from a directory, if it exists. -/
def lookUp? (tree : FileTree) (path : Path) (name : String) : Option Path :=
  let found := enter path name
  let reached :=
    if name = "." ∨ name = ".." then tree.isDirectory path else tree.contains found
  if reached then some found else none

/-- The directory above and the directory itself, where a part asks for them: they match only
if the part starts with a point. -/
def pointed (path : Path) (part : Pattern) : List Path :=
  if part.head? = some (.literal '.') then
    (if part.accepts ['.', '.'] then [path.join ⟨".."⟩] else []) ++
      (if part.accepts ['.'] then [path.join here] else [])
  else []

/-- All paths that match the parts from a directory on. Their order tells which of two
spellings of one path comes first: the directory above and the directory itself go before the
names in it, and paths on which directories end go before those on which they go on. The
budget bounds how far a path can get: every step takes a part or goes down a directory. -/
def matchesFrom (tree : FileTree) (onlyDirectories : Bool) : Nat → List Pattern → Path → List Path
  | 0, _, _ => []
  | _, [], _ => []
  | budget + 1, part :: rest, path =>
    let arrive (found : Path) (remaining : List Pattern) : List Path :=
      if remaining.isEmpty then
        (if onlyDirectories && !tree.isDirectory found then [] else [found])
      else matchesFrom tree onlyDirectories budget remaining found
    let named (name : String) (found : Path) : List Pattern → List Path
      | [] => []
      | part :: remaining => if part.accepts name.toList then arrive found remaining else []
    match part.literal? with
    | some name =>
      match lookUp? tree path (String.ofList name) with
      | none => []
      | some found => arrive found rest
    | none =>
      if tree.isDirectory path then
        (pointed path part).flatMap (arrive · rest) ++
        (tree.children path).flatMap fun name =>
          let found := enter path name
          if part.isRecursive then
            let remaining := rest.dropWhile Pattern.isRecursive
            named name found remaining ++
              (if tree.isDirectory found then
                (if remaining.isEmpty then [found] else []) ++
                  matchesFrom tree onlyDirectories budget (part :: remaining) found
              else [])
          else named name found (part :: rest)
      else []

/-- Why a pattern cannot be expanded: it is wrong, or it leads to an entry that cannot be read. -/
inductive Fault where
  | wrong (fault : Pattern.Fault)
  | entry (path : Path) (fault : FileFault)
deriving DecidableEq, Repr, Inhabited

/-- A way to match patterns: what is met in a tree, in order, and not always a path. -/
abbrev Matching := FileTree → Glob → List (Except Fault Path)

/-- All entries of a tree can be read. -/
def entries : Matching := fun tree glob =>
  let budget := (glob.parts.length + 1) * (tree.entries.length + 2)
  (matchesFrom tree glob.onlyDirectories budget glob.parts glob.start).map .ok

/-- The files that a pattern matches, sorted. Spellings of one path keep their order. -/
def expand (matching : Matching) (tree : FileTree) (text : String) : Except Fault (List Path) := do
  let glob ← (read text).mapError .wrong
  let found ← (matching tree glob).mapM id
  return Path.sort (found.filter tree.isFile)

end Glob

end Stencil
