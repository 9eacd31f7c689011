/-! Quoted literals: text between double quotes with the escapes of JSON. Quotes,
backslashes and the characters below the space are escaped, everything else stands as it
is. The same literal is a string of the generated script. -/

namespace Stencil.Text

/-- Lower-case hexadecimal digits, by value. -/
def hexDigit (value : Nat) : Char := Nat.digitChar (value % 16)

/-- How one character is written inside a quoted literal. -/
def quotedChar (c : Char) : List Char :=
  if c = '"' then ['\\', '"']
  else if c = '\\' then ['\\', '\\']
  else if c = '\x08' then ['\\', 'b']
  else if c = '\x0c' then ['\\', 'f']
  else if c = '\n' then ['\\', 'n']
  else if c = '\r' then ['\\', 'r']
  else if c = '\t' then ['\\', 't']
  else if c.toNat < 0x20 then ['\\', 'u', '0', '0', hexDigit (c.toNat / 16), hexDigit c.toNat]
  else [c]

def quotedChars (chars : List Char) : List Char := '"' :: (chars.flatMap quotedChar ++ ['"'])

def quoted (text : String) : String := String.ofList (quotedChars text.toList)

end Stencil.Text
