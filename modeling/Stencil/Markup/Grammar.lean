import Stencil.Markup.Basic
import Stencil.Markup.Scanner

/-! The grammar of markup, as scanners. Alternatives are tried in order and the first one
that matches is taken; a repetition takes all it can. Text runs up to a `<` that starts a
tag, a closing tag or a comment, and every other `<` belongs to it. The pieces that start with
a tag are given the scanner for what follows its name. -/

namespace Stencil.Markup

open Scanner

/-- Blanks inside tags. Other white space is part of names and values there. -/
def isGap (c : Char) : Bool := c = ' ' || c = '\t' || c = '\r' || c = '\n'

def isNameChar (c : Char) : Bool := c.isAlphanum || c = '-' || c = '_' || c = ':' || c = '.'

def isQuoteMark (c : Char) : Bool := c = '"' || c = '\''

def endsAttributeName (c : Char) : Bool :=
  isGap c || c = '=' || c = '>' || c = '/' || isQuoteMark c || c = '<'

def endsBareValue (c : Char) : Bool :=
  isGap c || c = '>' || isQuoteMark c || c = '=' || c = '<' || c = '\x60'

def startsWith (c : Char) (rest : List Char) : Bool := rest.head? = some c

def startsTag : List Char → Bool
  | '<' :: c :: _ => c.isAlpha || c = '/' || c = '!'
  | _ => false

def closesComment (rest : List Char) : Bool := "-->".toList.isPrefixOf rest

/-- A bare value may contain slashes, but not one that closes the tag. -/
def stopsBareValue (rest : List Char) : Bool :=
  rest.head?.any endsBareValue || "/>".toList.isPrefixOf rest

def lowerCase (chars : List Char) : List Char := chars.map Char.toLower

def scriptName : List Char := "script".toList

/-- A closing script tag, in any letter case; what follows the name does not matter. -/
def closesScript : List Char → Bool
  | '<' :: '/' :: rest => lowerCase (rest.take 6) = scriptName
  | _ => false

/-- Elements that never have content. -/
def voidNames : List (List Char) :=
  ["area", "base", "br", "col", "embed", "hr", "img", "input", "link", "meta", "param", "source",
   "track", "wbr"].map String.toList

def isVoidName (tag : List Char) : Bool := voidNames.contains (lowerCase tag)

def isScriptName (tag : List Char) : Bool := lowerCase tag = scriptName

def isTagName : List Char → Bool
  | [] => false
  | c :: rest => c.isAlpha && rest.all isNameChar

/-- Reads the whole name that starts here, if the condition holds of it. -/
def nameWhere (accepted : List Char → Bool) : Scanner (List Char) := do
  let name ← takeWhile isNameChar
  require (accepted name)
  return name

def scriptTag : Scanner (List Char) := nameWhere isScriptName

def voidTag : Scanner (List Char) := named .voidTag (nameWhere isVoidName)

def tagName : Scanner (List Char) := named .tagName (nameWhere isTagName)

/-- Fails where a script tag starts, and reads nothing. -/
def notScript : Scanner Unit := do
  let rest ← lookAhead
  require (!isScriptName (untilStop (fun rest => !(rest.head?.any isNameChar)) rest))

def gap : Scanner (List Char) := takeWhile isGap

def doubleQuoted : Scanner (Quoting × List Char) := do
  exactly ['"']
  let content ← named .doubleQuotedValue (takeUntil (startsWith '"'))
  exactly ['"']
  return (.double, content)

def singleQuoted : Scanner (Quoting × List Char) := do
  exactly ['\'']
  let content ← named .singleQuotedValue (takeUntil (startsWith '\''))
  exactly ['\'']
  return (.single, content)

def bare : Scanner (Quoting × List Char) := do
  let content ← named .bareValue (takeSomeUntil stopsBareValue)
  return (.bare, content)

def value : Scanner Value := do
  let beforeEquals ← gap
  exactly ['=']
  let afterEquals ← gap
  let (quoting, content) ← firstOf [doubleQuoted, singleQuoted, bare]
  return { beforeEquals, afterEquals, quoting, content }

def nameAndValue : Scanner (List Char × Option Value) := named .attribute do
  let name ← named .attributeName (takeSomeUntil fun rest => rest.head?.any endsAttributeName)
  let value ← maybe value
  return (name, value)

def field : Scanner Field := do
  let gap ← takeSome isGap
  let (name, value) ← nameAndValue
  return { gap, name, value }

/-- As many attributes as there are, at most `budget`. Each takes two characters or more, so
the length of what is left of the source is budget enough. -/
def fields : Nat → Scanner (List Field)
  | 0 => return []
  | budget + 1 => do
    match ← maybe field with
    | none => return []
    | some first => return first :: (← fields budget)

/-- The attributes of a tag that has been named, and the blanks behind them. -/
def openingWith (fields : Scanner (List Field)) (tag : List Char) : Scanner Opening := do
  let fields ← fields
  let gap ← gap
  return { tag, fields, gap }

def attributes (budget : Nat) : List Char → Scanner Opening := openingWith (fields budget)

def comment : Scanner Piece := do
  exactly "<!--".toList
  let content ← takeUntil closesComment
  exactly "-->".toList
  return .comment content

def text : Scanner Piece := do
  let content ← named .text (takeSomeUntil startsTag)
  return .text content

def emptyScript (attributes : List Char → Scanner Opening) : Scanner Piece := named .emptyScript do
  exactly ['<']
  let opening ← attributes (← scriptTag)
  exactly ['/', '>']
  return .emptyScript opening

/-- The name in a closing script tag, in any letter case. -/
def closingScriptName : Scanner (List Char) := do
  let name := (← lookAhead).take 6
  require (isScriptName name)
  exactly name
  return name

def script (attributes : List Char → Scanner Opening) : Scanner Piece := named .script do
  exactly ['<']
  let opening ← attributes (← scriptTag)
  exactly ['>']
  let body ← named .scriptBody (takeUntil closesScript)
  exactly ['<', '/']
  let closing ← closingScriptName
  let gap ← gap
  exactly ['>']
  return .script opening body closing gap

/-- The rest of a closing tag for the element that waits for one. -/
def closing : Scanner (List Char) := do
  exactly ['<', '/']
  popTag
  let gap ← gap
  exactly ['>']
  return gap

/-- A closing tag that a void element may be followed by, blanks allowed. -/
def needlessClosing : Scanner (Option (List Char × List Char)) := do
  let before ← gap
  let inside ← closing
  return some (before, inside)

def voidElement (attributes : List Char → Scanner Opening) : Scanner Piece := named .voidElement do
  exactly ['<']
  let tag ← voidTag
  pushTag tag
  let opening ← attributes tag
  let slash ← maybe (exactly ['/'])
  exactly ['>']
  let closing ← firstOf [needlessClosing, do dropTag; return none]
  return .leaf opening (.void slash.isSome closing)

def selfClosing (attributes : List Char → Scanner Opening) : Scanner Piece := named .selfClosing do
  exactly ['<']
  notScript
  let opening ← attributes (← tagName)
  exactly ['/', '>']
  return .leaf opening .selfClosed

/-- An element around whatever `children` reads. -/
def element (attributes : List Char → Scanner Opening) (children : Scanner (List Piece)) :
    Scanner Piece := named .element do
  exactly ['<']
  notScript
  let tag ← tagName
  pushTag tag
  let opening ← attributes tag
  exactly ['>']
  let children ← children
  let gap ← closing
  return .element opening children gap

def piece (attributes : List Char → Scanner Opening) (children : Scanner (List Piece)) : Scanner Piece :=
  firstOf [comment, emptyScript attributes, script attributes, voidElement attributes, selfClosing attributes,
    element attributes children, text]

/-- As many pieces as there are. The budget bounds how many pieces can stand next to and
inside one another; each piece takes a character, so one more than the length of the source
is budget enough. -/
def forest : Nat → Scanner (List Piece)
  | 0 => return []
  | budget + 1 => do
    match ← maybe (piece (attributes budget) (forest budget)) with
    | none => return []
    | some first => return first :: (← forest budget)

def endOfInput : Scanner Unit := named .endOfInput do
  require (← lookAhead).isEmpty

/-- A whole source. -/
def template : Scanner (List Piece) := named .template do
  let pieces ← forest ((← lookAhead).length + 1)
  endOfInput
  return pieces

end Stencil.Markup
