/-! TOML values and documents. A table remembers how it came about, because that decides
whether a later part of the document may add to it. -/

namespace Stencil

/-- How a table came about: by a header of its own, on the way to another header, or on the
way to a dotted key. -/
inductive Toml.Origin where
  | header
  | passage
  | dotted
deriving DecidableEq, Repr, Inhabited

inductive Toml where
  | string (text : String)
  | integer (value : Int)
  | float (text : String)
  | boolean (value : Bool)
  | moment (text : String)
  | array (items : List Toml)
  | inline (fields : List (String × Toml))
  | table (origin : Toml.Origin) (fields : List (String × Toml))
  | tables (elements : List (List (String × Toml)))
deriving Repr, Inhabited

namespace Toml

abbrev Table := List (String × Toml)

/-- The fields of any kind of table. -/
def fields? : Toml → Option Table
  | .inline fields => some fields
  | .table _ fields => some fields
  | _ => none

def string? : Toml → Option String
  | .string text => some text
  | _ => none

/-- Whether a value is a table without fields or an array without items. -/
def isHollow : Toml → Bool
  | .array items => items.isEmpty
  | .inline fields => fields.isEmpty
  | .table _ fields => fields.isEmpty
  | .tables elements => elements.isEmpty
  | _ => false

/-- The fields of a value that stands for a record. The items of an array are the fields in
the order of their names, as far as there are names; a date or time is a record of its own
kind, with none of these fields. -/
def record? (names : List String) : Toml → Option (List (String × Toml))
  | .array items => some (names.zip items)
  | .tables elements => some (names.zip (elements.map .inline))
  | .moment _ => some []
  | value => value.fields?

namespace Table

/-- Replaces the value of a key, or adds the key at the end. -/
def put (table : Table) (name : String) (value : Toml) : Table :=
  match table with
  | [] => [(name, value)]
  | (key, old) :: rest => if key = name then (key, value) :: rest else (key, old) :: put rest name value

/-- Adds a key that must be new. -/
def insertNew? (table : Table) (name : String) (value : Toml) : Option Table :=
  if (table.lookup name).isSome then none else some (table ++ [(name, value)])

/-- Assigns a dotted key, given whether the table at hand was itself made by a dotted key.
Such tables are made on the way; a table with a header of its own cannot be reached, of an
array of tables the last one is meant, and the key itself must be new. -/
def assign? (table : Table) (dotted : Bool) (key : List String) (value : Toml) (nested : Bool) :
    Option Table :=
  match key with
  | [] => none
  | [name] => if dotted = nested then table.insertNew? name value else none
  | name :: rest =>
    match table.lookup name with
    | none => do
      let inner ← assign? [] true rest value true
      return table ++ [(name, .table .dotted inner)]
    | some (.table origin inner) =>
      if origin = .header then none
      else do
        let inner ← assign? inner (origin = .dotted) rest value true
        return table.put name (.table origin inner)
    | some (.tables elements) => do
      let last ← assign? (← elements.getLast?) false rest value true
      return table.put name (.tables (elements.dropLast ++ [last]))
    | some _ => none

/-- Applies a change to the table that a header names. Tables that are missing on the way are
made; of an array of tables the last one is meant. -/
def changeAt? (table : Table) (path : List String) (change : Table → Option Table) : Option Table :=
  match path with
  | [] => change table
  | name :: rest =>
    match table.lookup name with
    | none => do
      let inner ← changeAt? [] rest change
      return table ++ [(name, .table .passage inner)]
    | some (.table origin inner) => do
      let inner ← changeAt? inner rest change
      return table.put name (.table origin inner)
    | some (.tables elements) =>
      match elements.getLast? with
      | none => none
      | some last => do
        let last ← changeAt? last rest change
        return table.put name (.tables (elements.dropLast ++ [last]))
    | some _ => none

/-- Opens the table of a header. It may have been passed through, but not defined. -/
def openTable? (name : String) (table : Table) : Option Table :=
  match table.lookup name with
  | none => some (table ++ [(name, .table .header [])])
  | some (.table .passage inner) => some (table.put name (.table .header inner))
  | some _ => none

/-- Starts a new table at the end of an array of tables. -/
def openElement? (name : String) (table : Table) : Option Table :=
  match table.lookup name with
  | none => some (table ++ [(name, .tables [[]])])
  | some (.tables elements) => some (table.put name (.tables (elements ++ [[]])))
  | some _ => none

end Table

end Toml

end Stencil
