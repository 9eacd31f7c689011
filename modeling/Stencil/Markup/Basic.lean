/-! Markup as it is written. A tree of this kind holds every character of the source it was
read from, blanks and letter case included, so that writing it gives the source back and
spans can be counted off it. What the pieces mean is decided elsewhere. -/

namespace Stencil.Markup

inductive Quoting where
  | double
  | single
  | bare
deriving DecidableEq, Repr, Inhabited

/-- A value with the blanks on both sides of its equals sign. -/
structure Value where
  beforeEquals : List Char
  afterEquals : List Char
  quoting : Quoting
  content : List Char
deriving DecidableEq, Repr, Inhabited

/-- An attribute with the blanks before it. -/
structure Field where
  gap : List Char
  name : List Char
  value : Option Value
deriving DecidableEq, Repr, Inhabited

/-- The inside of an opening tag: its name, its attributes and the blanks behind them. -/
structure Opening where
  tag : List Char
  fields : List Field
  gap : List Char
deriving DecidableEq, Repr, Inhabited

/-- How an element without content ends. A void element may have a slash, and may be
followed by a closing tag that it does not need, with blanks before and inside that tag. -/
inductive Ending where
  | selfClosed
  | void (slashed : Bool) (closing : Option (List Char × List Char))
deriving DecidableEq, Repr, Inhabited

inductive Piece where
  | comment (content : List Char)
  | text (content : List Char)
  | script (opening : Opening) (body : List Char) (closingTag : List Char) (gap : List Char)
  | emptyScript (opening : Opening)
  | leaf (opening : Opening) (ending : Ending)
  | element (opening : Opening) (children : List Piece) (gap : List Char)
deriving Repr, Inhabited

def Quoting.mark : Quoting → List Char
  | .double => ['"']
  | .single => ['\'']
  | .bare => []

/-- The value from its first quote to its last. -/
def Value.literal (value : Value) : List Char :=
  value.quoting.mark ++ value.content ++ value.quoting.mark

def Value.write (value : Value) : List Char :=
  value.beforeEquals ++ '=' :: value.afterEquals ++ value.literal

/-- The attribute without the blanks before it. -/
def Field.body (field : Field) : List Char :=
  field.name ++ (field.value.map Value.write).getD []

def Field.write (field : Field) : List Char := field.gap ++ field.body

def Opening.write (opening : Opening) : List Char :=
  '<' :: opening.tag ++ opening.fields.flatMap Field.write ++ opening.gap

def closingTag (tag gap : List Char) : List Char := '<' :: '/' :: tag ++ gap ++ ['>']

def Ending.write (tag : List Char) : Ending → List Char
  | .selfClosed => ['/', '>']
  | .void slashed closing =>
    (if slashed then ['/'] else []) ++ '>' ::
      match closing with
      | none => []
      | some (before, gap) => before ++ closingTag tag gap

mutual

/-- The source of a piece of markup. -/
def Piece.write : Piece → List Char
  | .comment content => "<!--".toList ++ content ++ "-->".toList
  | .text content => content
  | .script opening body tag gap => opening.write ++ '>' :: body ++ closingTag tag gap
  | .emptyScript opening => opening.write ++ ['/', '>']
  | .leaf opening ending => opening.write ++ ending.write opening.tag
  | .element opening children gap =>
    opening.write ++ '>' :: writeAll children ++ closingTag opening.tag gap

def writeAll : List Piece → List Char
  | [] => []
  | piece :: rest => piece.write ++ writeAll rest

end

end Stencil.Markup
