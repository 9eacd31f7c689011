import Stencil.Text.Lines

/-! Source excerpts for error reports: the line in question, up to two lines on either
side, and a caret below the column. -/

namespace Stencil

structure Excerpt where
  lines : List (Nat × String)
  line : Nat
  column : Nat
deriving DecidableEq, Repr, Inhabited

namespace Excerpt

/-- Lines shown on either side of the one in question. -/
def margin : Nat := 2

/-- The lines of a text with their numbers, from one. -/
def numbered (source : String) : List (Nat × String) :=
  (Text.lines source).zipIdx 1 |>.map fun (text, number) => (number, text)

def around (source : String) (line column : Nat) : Excerpt where
  lines := (numbered source).filter fun (number, _) =>
    line - margin ≤ number && number ≤ line + margin
  line := line
  column := column

/-- What stands before the caret: as many characters as stand before the column, with the
tabs of the line kept so that both rows are spaced alike. -/
def padding (column : Nat) (text : String) : List Char :=
  let shown := text.toList.take (column - 1)
  shown.map (fun c => if c = '\t' then '\t' else ' ') ++
    List.replicate (column - 1 - shown.length) ' '

/-- A number at the right end of four columns, or of as many as it needs. -/
def gutter (number : Nat) : List Char :=
  let digits := Nat.toDigits 10 number
  List.replicate (4 - digits.length) ' ' ++ digits

def row (number : Nat) (text : String) : String :=
  String.ofList (gutter number) ++ " | " ++ text ++ "\n"

def caretRow (column : Nat) (text : String) : String :=
  "     | " ++ String.ofList (padding column text) ++ "^\n"

def rows (excerpt : Excerpt) : List String :=
  excerpt.lines.flatMap fun (number, text) =>
    if number = excerpt.line then [row number text, caretRow excerpt.column text]
    else [row number text]

def render (excerpt : Excerpt) : String := String.join excerpt.rows

end Excerpt

end Stencil
