/-! The lines of a text. A line feed ends a line, and a carriage return directly before it
belongs to the ending. Text behind the last line feed is a line of its own, unless there is
none; such a line keeps a trailing carriage return. -/

namespace Stencil.Text

/-- Splits the rest of a text, given the characters of the current line read so far, last
one first. -/
def linesFrom (current : List Char) : List Char → List (List Char)
  | [] => if current.isEmpty then [] else [current.reverse]
  | c :: rest =>
    if c = '\n' then
      (match current with
        | '\r' :: kept => kept.reverse
        | _ => current.reverse) :: linesFrom [] rest
    else linesFrom (c :: current) rest

def lines (text : String) : List String := (linesFrom [] text.toList).map String.ofList

end Stencil.Text
