/-! File paths. A path is its text, which is what is shown and what names are joined to; its
components are what it means. Repeated slashes, trailing slashes and points that stand for
the current directory make no component, except a point at the very start. -/

namespace Stencil

inductive Component where
  | root
  | current
  | parent
  | name (text : String)
deriving DecidableEq, Repr, Inhabited

namespace Component

def text : Component → String
  | .root => ""
  | .current => "."
  | .parent => ".."
  | .name text => text

def rank : Component → Nat
  | .root => 0
  | .current => 1
  | .parent => 2
  | .name _ => 3

/-- Names are ordered by code points; other components come before them. -/
def before (first second : Component) : Bool :=
  match first, second with
  | .name first, .name second => decide (first < second)
  | _, _ => decide (first.rank < second.rank)

end Component

structure Path where
  text : String
deriving DecidableEq, Repr, Inhabited

namespace Path

/-- The parts between slashes, of which there is always one. -/
def segmentsOf : List Char → List (List Char)
  | [] => [[]]
  | c :: rest =>
    if c = '/' then [] :: segmentsOf rest
    else match segmentsOf rest with
      | [] => [[c]]
      | first :: others => (c :: first) :: others

def segments (path : Path) : List String := (segmentsOf path.text.toList).map String.ofList

def isAbsolute (path : Path) : Bool := path.text.toList.head? = some '/'

/-- The component that a segment stands for, if any. -/
def component? (segment : String) : Option Component :=
  if segment = "" ∨ segment = "." then none
  else if segment = ".." then some .parent
  else some (.name segment)

def components (path : Path) : List Component :=
  (if path.isAbsolute then [.root]
    else if path.segments.head? = some "." then [.current]
    else []) ++
  path.segments.filterMap component?

/-- The plainest path with these components. -/
def ofComponents (components : List Component) : Path :=
  if components = [.root] then ⟨"/"⟩ else ⟨"/".intercalate (components.map Component.text)⟩

/-- The name at the end of a path, if it ends in one. -/
def fileName? (path : Path) : Option String :=
  match path.components.getLast? with
  | some (.name text) => some text
  | _ => none

/-- A name up to its last point, unless that point is its first character. -/
def stemOf (name : String) : String :=
  match name.toList.reverse.dropWhile (· ≠ '.') with
  | [] => name
  | _ :: before => if before.isEmpty then name else String.ofList before.reverse

def stem? (path : Path) : Option String := path.fileName?.map stemOf

/-- What follows the last point of a name, unless that point is its first character. -/
def extensionOf (name : String) : String :=
  String.ofList (name.toList.drop ((stemOf name).length + 1))

/-- Drops trailing slashes and points, given and giving the text in reverse. -/
def trimEnd : List Char → List Char
  | '/' :: [] => ['/']
  | '/' :: rest => trimEnd rest
  | '.' :: '/' :: rest => trimEnd ('/' :: rest)
  | rest => rest

/-- The text before the last component, in reverse. -/
def frontReversed (path : Path) : List Char :=
  (trimEnd path.text.toList.reverse).dropWhile (· ≠ '/')

/-- The path to the directory that a path is in. The path to a bare name is in the empty
path, and the root is in nothing. -/
def parent? (path : Path) : Option Path :=
  match path.components.getLast? with
  | none => none
  | some .root => none
  | some _ => some ⟨String.ofList (trimEnd path.frontReversed).reverse⟩

/-- The text of a path without the extension of its name, but with the point before it. -/
def withoutExtension (path : Path) : Path :=
  match path.fileName? with
  | none => path
  | some name => ⟨String.ofList (path.text.toList.reverse.drop (extensionOf name).length).reverse⟩

/-- Replaces the extension. A path without a name stays as it is, and so does one that has
become a path to a parent directory by losing its extension. -/
def withExtension (path : Path) (extension : String) : Path :=
  let bare := path.withoutExtension
  match bare.stem? with
  | none => bare
  | some stem => ⟨String.ofList bare.frontReversed.reverse ++ stem ++ "." ++ extension⟩

/-- Puts a path behind another one. An absolute path stays as it is. -/
def join (path other : Path) : Path :=
  if other.isAbsolute then other
  else if path.text = "" then other
  else if path.text.toList.getLast? = some '/' then ⟨path.text ++ other.text⟩
  else ⟨path.text ++ "/" ++ other.text⟩

/-- Whether the path is the current directory, however it is spelled. -/
def isCurrent (path : Path) : Bool := path.components = [.current]

/-- The segments behind the first components, from the next component on. -/
def segmentsBehind : Nat → List String → List String
  | 0, segments => segments.dropWhile fun segment => (component? segment).isNone
  | _ + 1, [] => []
  | count + 1, segment :: rest =>
    if (component? segment).isSome then segmentsBehind count rest
    else segmentsBehind (count + 1) rest

/-- The rest of a path behind its first components, spelled as in the path, if these
components are the ones given. A root or a point is a component only as the first segment. -/
def below? (path : Path) (base : List Component) : Option Path :=
  if base.isPrefixOf path.components then
    match base with
    | [] => some path
    | first :: others =>
      let count := if first = .root ∨ first = .current then 0 else 1
      some ⟨"/".intercalate
        (segmentsBehind (count + others.length) (path.segments.drop (1 - count)))⟩
  else none

/-- Paths are ordered component by component, so a directory comes before a file whose name
only starts like it. -/
def ordered : List Component → List Component → Bool
  | [], _ => true
  | _ :: _, [] => false
  | first :: rest, second :: others =>
    if first.before second then true
    else if second.before first then false
    else ordered rest others

def sort (paths : List Path) : List Path :=
  paths.mergeSort fun first second => ordered first.components second.components

end Path

end Stencil
