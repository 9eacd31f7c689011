/-! Continued literals: string literals of the generated script for text content. A line
feed is written as a space, a backslash and the line feed itself, so that the literal runs
over as many lines as the text does and no word meets the next one. -/

namespace Stencil.Text

def continuedChar (c : Char) : List Char :=
  if c = '\\' then ['\\', '\\']
  else if c = '"' then ['\\', '"']
  else if c = '\r' then ['\\', 'r']
  else if c = '\n' then [' ', '\\', '\n']
  else [c]

def continuedChars (chars : List Char) : List Char :=
  '"' :: (chars.flatMap continuedChar ++ ['"'])

def continued (text : String) : String := String.ofList (continuedChars text.toList)

end Stencil.Text
