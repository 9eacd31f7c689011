/-! JSON values. The fields of an object keep their order. A number is an integer with a
count of decimal places, so no value is rounded. -/

namespace Stencil

inductive Json where
  | null
  | bool (value : Bool)
  | number (digits : Int) (places : Nat)
  | string (text : String)
  | array (items : List Json)
  | object (fields : List (String × Json))
deriving Repr, Inhabited

namespace Json

def ofNat (value : Nat) : Json := .number value 0

def ofOption {α : Type} (encode : α → Json) : Option α → Json
  | none => .null
  | some value => encode value

def string? : Json → Option String
  | .string text => some text
  | _ => none

def bool? : Json → Option Bool
  | .bool value => some value
  | _ => none

/-- A natural number, written without decimal places. -/
def nat? : Json → Option Nat
  | .number (.ofNat value) 0 => some value
  | _ => none

def items? : Json → Option (List Json)
  | .array items => some items
  | _ => none

def fields? : Json → Option (List (String × Json))
  | .object fields => some fields
  | _ => none

/-- The fields of a value that stands for a record: those of an object, or the items of an
array under the given names. An array has no way to leave a field out, so it has to have one
item for each name. -/
def record? (names : List String) : Json → Option (List (String × Json))
  | .object fields => some fields
  | .array items => if items.length = names.length then some (names.zip items) else none
  | _ => none

/-- The fields of a value that stands for a record whose fields all have defaults. An array
may then end early, but not go on after the last name. -/
def openRecord? (names : List String) : Json → Option (List (String × Json))
  | .object fields => some fields
  | .array items => if items.length ≤ names.length then some (names.zip items) else none
  | _ => none

/-- A value that may be missing or null. Anything else has to decode. -/
def nullable? {α : Type} (decode : Json → Option α) : Option Json → Option (Option α)
  | none => some none
  | some .null => some none
  | some json => (decode json).map some

/-- Every item decoded, or nothing. -/
def listOf? {α : Type} (decode : Json → Option α) (json : Json) : Option (List α) := do
  (← json.items?).mapM decode

end Json

end Stencil
