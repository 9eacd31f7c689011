/-! Identifiers of the generated script: an ASCII letter, underscore or dollar sign, then
any number of these and ASCII digits. -/

namespace Stencil.Directive

def startsIdentifier (c : Char) : Bool := c.isAlpha || c = '_' || c = '$'

def continuesIdentifier (c : Char) : Bool := startsIdentifier c || c.isDigit

def isIdentifierChars : List Char → Bool
  | [] => false
  | c :: rest => startsIdentifier c && rest.all continuesIdentifier

def isIdentifier (name : String) : Bool := isIdentifierChars name.toList

end Stencil.Directive
