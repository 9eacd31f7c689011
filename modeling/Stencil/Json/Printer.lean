import Stencil.Json.Basic
import Stencil.Text.Quoted

/-! JSON values as text over several lines: two spaces for every level, one item or field a
line, and nothing between the brackets of an empty array or object. -/

namespace Stencil.Json

def numberText (digits : Int) (places : Nat) : String :=
  (match digits with
    | .ofNat value => value.repr
    | .negSucc value => "-" ++ (value + 1).repr) ++
  (if places = 0 then "" else "e-" ++ places.repr)

/-- The start of a line at a level. -/
def lineStart (level : Nat) : String := "\n" ++ String.ofList (List.replicate (2 * level) ' ')

/-- Lines between brackets, if there are any. -/
def bracketed (first last : String) (level : Nat) (lines : List String) : String :=
  if lines.isEmpty then first ++ last
  else
    first ++ ",".intercalate (lines.map (lineStart (level + 1) ++ ·)) ++ lineStart level ++ last

mutual

def pretty (level : Nat) : Json → String
  | .null => "null"
  | .bool value => if value then "true" else "false"
  | .number digits places => numberText digits places
  | .string text => Text.quoted text
  | .array items => bracketed "[" "]" level (prettyItems (level + 1) items)
  | .object fields => bracketed "\x7b" "\x7d" level (prettyFields (level + 1) fields)

def prettyItems (level : Nat) : List Json → List String
  | [] => []
  | item :: rest => pretty level item :: prettyItems level rest

def prettyFields (level : Nat) : List (String × Json) → List String
  | [] => []
  | (name, value) :: rest =>
    (Text.quoted name ++ ": " ++ pretty level value) :: prettyFields level rest

end

end Stencil.Json
