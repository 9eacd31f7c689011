/-! Blank characters and trimming. Blanks are the characters with the Unicode property
White_Space, so a no-break space is blank while a zero-width space is not. -/

namespace Stencil.Text

def isBlank (c : Char) : Bool :=
  let code := c.toNat
  (0x09 ≤ code && code ≤ 0x0D) || code == 0x20 || code == 0x85 || code == 0xA0 ||
    code == 0x1680 || (0x2000 ≤ code && code ≤ 0x200A) || code == 0x2028 || code == 0x2029 ||
    code == 0x202F || code == 0x205F || code == 0x3000

/-- Drops the blanks at both ends. -/
def trimChars (chars : List Char) : List Char :=
  ((chars.dropWhile isBlank).reverse.dropWhile isBlank).reverse

def trim (text : String) : String := String.ofList (trimChars text.toList)

/-- True of the empty text as well: nothing in it would be seen. -/
def isBlankText (text : String) : Bool := text.toList.all isBlank

end Stencil.Text
