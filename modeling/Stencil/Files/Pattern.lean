import Stencil.Files.Path

/-! Patterns for file names: `*` for any run of characters, `?` for one character, and
classes of characters in brackets, which an exclamation mark turns around. Two stars are a
component of their own and stand for any number of directories. -/

namespace Stencil

/-- One character or a range in a class. -/
inductive ClassItem where
  | single (c : Char)
  | range (first last : Char)
deriving DecidableEq, Repr, Inhabited

inductive Wildcard where
  | literal (c : Char)
  | anyChar
  | anyRun
  | directories
  | oneOf (items : List ClassItem)
  | noneOf (items : List ClassItem)
deriving DecidableEq, Repr, Inhabited

def ClassItem.contains (item : ClassItem) (c : Char) : Bool :=
  match item with
  | .single member => c = member
  | .range first last => first ≤ c && c ≤ last

/-- Whether a wildcard stands for one character, this one. -/
def Wildcard.takes (c : Char) : Wildcard → Bool
  | .literal member => c = member
  | .anyChar => true
  | .oneOf items => items.any (·.contains c)
  | .noneOf items => !items.any (·.contains c)
  | .anyRun => false
  | .directories => false

def Wildcard.isRun : Wildcard → Bool
  | .anyRun => true
  | .directories => true
  | _ => false

abbrev Pattern := List Wildcard

inductive Pattern.Complaint where
  | wildcards
  | recursion
  | range
deriving DecidableEq, Repr, Inhabited

/-- What is wrong with a pattern, and the character it is noticed at, counted from zero. -/
structure Pattern.Fault where
  position : Nat
  complaint : Pattern.Complaint
deriving DecidableEq, Repr, Inhabited

namespace Pattern

def Complaint.message : Complaint → String
  | .wildcards => "wildcards are either regular `*` or recursive `**`"
  | .recursion => "recursive wildcards must form a single path component"
  | .range => "invalid range pattern"

def Fault.message (fault : Fault) : String :=
  "Pattern syntax error near position " ++ fault.position.repr ++ ": " ++ fault.complaint.message

/-- Whether a text has wildcards at all. -/
def isPattern (text : String) : Bool := text.toList.any fun c => c = '*' || c = '?' || c = '['

/-- The items of a class. A hyphen makes a range if characters stand on both sides of it. -/
def classItems : List Char → List ClassItem
  | first :: '-' :: last :: rest => .range first last :: classItems rest
  | c :: rest => .single c :: classItems rest
  | [] => []

/-- The inside of a class and what follows its bracket, behind the opening one. The first
character always belongs to the class, even a closing bracket. -/
def classBody? : List Char → Option (List Char × List Char)
  | [] => none
  | first :: rest =>
    if rest.contains ']' then
      some (first :: rest.takeWhile (· ≠ ']'), (rest.dropWhile (· ≠ ']')).drop 1)
    else none

/-- A class, behind its opening bracket. -/
def class? : List Char → Option (Wildcard × List Char)
  | '!' :: rest => (classBody? rest).map fun (body, rest) => (.noneOf (classItems body), rest)
  | rest => (classBody? rest).map fun (body, rest) => (.oneOf (classItems body), rest)

/-- Reads the rest of a pattern, given the position and the character before it. Two stars
take the slash behind them along. The budget bounds the number of wildcards. -/
def readFrom (position : Nat) (before : Option Char) : Nat → List Char → Except Fault Pattern
  | 0, _ => .ok []
  | _, [] => .ok []
  | budget + 1, c :: rest =>
    if c = '?' then do
      return .anyChar :: (← readFrom (position + 1) (some c) budget rest)
    else if c = '*' then
      match (c :: rest).takeWhile (· = '*') with
      | [_] => do return .anyRun :: (← readFrom (position + 1) (some c) budget rest)
      | [_, _] =>
        if before.all (· = '/') then
          match rest.drop 1 with
          | [] => .ok [.directories]
          | '/' :: behind => do
            return .directories :: (← readFrom (position + 3) (some '/') budget behind)
          | _ => .error ⟨position + 2, .recursion⟩
        else .error ⟨position - 1, .recursion⟩
      | _ => .error ⟨position + 2, .wildcards⟩
    else if c = '[' then
      match class? rest with
      | none => .error ⟨position, .range⟩
      | some (wildcard, behind) => do
        let next := position + (c :: rest).length - behind.length
        return wildcard :: (← readFrom next (some ']') budget behind)
    else do
      return .literal c :: (← readFrom (position + 1) (some c) budget rest)

def read (text : String) : Except Fault Pattern :=
  readFrom 0 none (text.toList.length + 1) text.toList

def suffixes : List Char → List (List Char)
  | [] => [[]]
  | c :: rest => (c :: rest) :: suffixes rest

def restWhere? (wildcard : Wildcard) : List Char → Option (List Char)
  | [] => none
  | c :: rest => if wildcard.takes c then some rest else none

/-- What can be left of a name behind one more wildcard, given what can be left before it, the
longest rest first. Behind a run this is every suffix of the longest rest. -/
def restsBehind (rests : List (List Char)) (wildcard : Wildcard) : List (List Char) :=
  if wildcard.isRun then
    match rests with
    | [] => []
    | longest :: _ => suffixes longest
  else rests.filterMap (restWhere? wildcard)

/-- A pattern accepts a name if nothing can be left of it in the end. -/
def accepts (pattern : Pattern) (name : List Char) : Bool :=
  (pattern.foldl restsBehind [name]).any List.isEmpty

/-- The text of a pattern without wildcards. -/
def literal? : Pattern → Option (List Char)
  | [] => some []
  | .literal c :: rest => (literal? rest).map (c :: ·)
  | _ :: _ => none

def isRecursive (pattern : Pattern) : Bool := pattern.contains .directories

end Pattern

end Stencil
