/-! The hoist table of a module. Constant data that render statements share is declared once
in the preamble and referred to by an identifier; literal blocks are lifted as they are.
Equal texts share an identifier, and identifiers are numbered in the order in which their
texts are first seen. -/

namespace Stencil

/-- A declaration of the preamble. -/
structure Hoisted where
  identifier : String
  text : String
deriving DecidableEq, Repr, Inhabited

def Hoisted.declaration (hoisted : Hoisted) : String :=
  "var " ++ hoisted.identifier ++ " = " ++ hoisted.text

/-- The declarations in order, the literal blocks, and how many numbers have been given out. -/
structure HoistTable where
  statics : List Hoisted
  literals : List String
  count : Nat
deriving DecidableEq, Repr, Inhabited

namespace HoistTable

def empty : HoistTable := ⟨[], [], 0⟩

def identifierAt (number : Nat) : String := "hoisted" ++ number.repr

def find? (table : HoistTable) (text : String) : Option Hoisted :=
  table.statics.find? (·.text = text)

/-- The identifier of a text, which is declared under the next number if it is not yet. -/
def addStatics (table : HoistTable) (text : String) : String × HoistTable :=
  match table.find? text with
  | some declared => (declared.identifier, table)
  | none =>
    let count := table.count + 1
    let identifier := identifierAt count
    (identifier, { table with statics := table.statics ++ [{ identifier, text }], count })

def addLiteral (table : HoistTable) (text : String) : HoistTable :=
  { table with literals := table.literals ++ [text] }

/-- Drops what has been declared and lifted, and starts to count again. -/
def clear (table : HoistTable) : HoistTable := { table with statics := [], literals := [], count := 0 }

def size (table : HoistTable) : Nat := table.statics.length

def isEmpty (table : HoistTable) : Bool := table.statics.isEmpty && table.literals.isEmpty

/-- The text of the preamble: the literal blocks, then the declarations, each of which
starts a line. -/
def preamble (table : HoistTable) : String :=
  "\n".intercalate table.literals ++
    String.join (table.statics.map fun hoisted => "\n" ++ hoisted.declaration)

end HoistTable

end Stencil
