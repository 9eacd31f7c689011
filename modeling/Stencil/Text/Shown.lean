import Stencil.Text.Hidden

/-! Texts as they are shown in messages: quoted, with whatever cannot be seen escaped. -/

namespace Stencil.Text

/-- How one character is written inside a shown text. -/
def shownChar (c : Char) : List Char :=
  if c = '"' then ['\\', '"']
  else if c = '\\' then ['\\', '\\']
  else if c = '\n' then ['\\', 'n']
  else if c = '\r' then ['\\', 'r']
  else if c = '\t' then ['\\', 't']
  else if c = '\x00' then ['\\', '0']
  else if isHidden c then
    "\\u\x7b".toList ++ Nat.toDigits 16 c.toNat ++ ['\x7d']
  else [c]

def shown (text : String) : String :=
  String.ofList ('"' :: (text.toList.flatMap shownChar ++ ['"']))

/-- Texts in brackets. -/
def shownList (texts : List String) : String := "[" ++ ", ".intercalate (texts.map shown) ++ "]"

end Stencil.Text
