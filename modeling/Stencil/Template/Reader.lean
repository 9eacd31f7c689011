import Stencil.Directive.Condition
import Stencil.Directive.Loop
import Stencil.Markup.Grammar
import Stencil.Template.Fault

/-! Reading templates. The source is first read as markup, which says where everything is
written; the nodes are then made from that, piece by piece in the order of the source. Of
one element the attribute names are looked at first, then its content, then its
directives. -/

namespace Stencil

open Markup (Field Opening Piece closingTag)
open Text (Place Span)

namespace Template

/-- An attribute and where it is written. One without a value has the empty value. -/
structure Written where
  name : String
  value : String
  span : Span
deriving DecidableEq, Repr, Inhabited

/-- Counts off where the attributes of a tag are written, from the place behind its name. -/
def locate (place : Place) : List Field → List Written
  | [] => []
  | field :: rest =>
    let start := place.after field.gap
    let stop := start.after field.body
    { name := String.ofList field.name
      value := String.ofList ((field.value.map Markup.Value.content).getD [])
      span := Span.between start stop } :: locate stop rest

/-- The attributes of a tag that starts at a place. -/
def fieldsOf (place : Place) (opening : Opening) : List Written :=
  locate (place.after ('<' :: opening.tag)) opening.fields

def Written.fault (written : Written) (fault : Markup.Fault) : Fault :=
  .markup fault written.span.line written.span.column

def Written.directiveFault (written : Written) (fault : Directive.Fault) : Fault :=
  .directive fault written.value written.span.line written.span.column

/-- The first attribute whose name stands in an earlier one, or in `seen`. -/
def repeated? (seen : List String) : List Written → Option Written
  | [] => none
  | written :: rest =>
    if seen.contains written.name then some written else repeated? (written.name :: seen) rest

def requireDistinct (fields : List Written) : Except Fault Unit :=
  match repeated? [] fields with
  | none => .ok ()
  | some written => .error (written.fault (.duplicateAttribute written.name))

/-- Whether a script is hoisted. It takes no other attribute. -/
def scriptFlag : List Written → Except Fault Bool
  | [] => .ok false
  | written :: rest =>
    if written.name = "hoisted" then do
      let _ ← scriptFlag rest
      return true
    else .error (written.fault (.scriptAttribute written.name))

/-- The attribute that holds the directive of a loop element, given the one found so far. -/
def loopField (found : Option Written) : List Written → Except Fault (Option Written)
  | [] => .ok found
  | written :: rest =>
    if written.name = "expression" ∨ written.name = "condition" then
      match found with
      | none => loopField (some written) rest
      | some _ => .error (written.fault .secondExpression)
    else .error (written.fault (.loopAttribute written.name))

def readLoop (written : Written) : Except Fault LoopSpec :=
  (Directive.readLoop written.value).mapError written.directiveFault

def readGuard (written : Written) : Except Fault Guard :=
  match Directive.readCondition written.value with
  | .ok condition => .ok { condition, span := written.span }
  | .error fault => .error (written.directiveFault fault)

/-- The attributes of an element, sorted into static ones and directives. -/
structure Parts where
  attributes : List Attribute
  loop : Option LoopSpec
  guard : Option Guard

def parts : List Written → Except Fault Parts
  | [] => .ok { attributes := [], loop := none, guard := none }
  | written :: rest =>
    if written.name = "each" then do
      let spec ← readLoop written
      let later ← parts rest
      return { later with loop := some spec }
    else if written.name = "if" then do
      let guard ← readGuard written
      let later ← parts rest
      return { later with guard := some guard }
    else do
      let later ← parts rest
      return { later with
        attributes := { name := written.name, value := written.value } :: later.attributes }

/-- The node of an element whose content has been read. -/
def makeNode (tag : List Char) (fields : List Written) (children : List Node) (span : Span) :
    Except Fault Node :=
  if tag = "each".toList then do
    match ← loopField none fields with
    | none => .error (.markup .missingExpression span.line span.column)
    | some written => return .loop (← readLoop written) children span
  else do
    let parts ← parts fields
    return .element (String.ofList tag) parts.attributes children parts.loop parts.guard span

mutual

/-- The nodes that a piece of markup stands for, which is none for a comment, and the place
behind it. -/
def readPiece (place : Place) : Piece → Except Fault (List Node × Place)
  | .comment content => .ok ([], place.after (Piece.comment content).write)
  | .text content => .ok ([.text (String.ofList content)], place.after content)
  | .emptyScript _ => .error (.markup .emptyScript place.line place.column)
  | .script opening body tag gap => do
    let fields := fieldsOf place opening
    requireDistinct fields
    let hoisted ← scriptFlag fields
    return ([.script (String.ofList (Text.trimChars body)) hoisted],
      place.after (Piece.script opening body tag gap).write)
  | .leaf opening ending => do
    let fields := fieldsOf place opening
    requireDistinct fields
    let stop := place.after (Piece.leaf opening ending).write
    let node ← makeNode opening.tag fields [] (Span.between place stop)
    return ([node], stop)
  | .element opening children gap => do
    let fields := fieldsOf place opening
    requireDistinct fields
    let (nodes, behind) ← readPieces (place.after (opening.write ++ ['>'])) children
    let stop := behind.after (closingTag opening.tag gap)
    let node ← makeNode opening.tag fields nodes (Span.between place stop)
    return ([node], stop)

def readPieces (place : Place) : List Piece → Except Fault (List Node × Place)
  | [] => .ok ([], place)
  | piece :: rest => do
    let (nodes, next) ← readPiece place piece
    let (later, stop) ← readPieces next rest
    return (nodes ++ later, stop)

end

/-- What the trace of a failed reading says was expected, and where. -/
def expectation (source : List Char) (trace : List Markup.Attempt) : Fault :=
  let frontier := Markup.followAll ⟨source.length, []⟩ trace
  let place := Place.origin.after (source.take (source.length - frontier.left))
  .markup (.expected frontier.labels) place.line place.column

/-- Reads a template. It has no path yet. -/
def read (source : String) : Except Fault Template := do
  let outcome := Markup.template { rest := source.toList }
  match outcome.found with
  | none => .error (expectation source.toList outcome.trace)
  | some (pieces, _) =>
    let (body, _) ← readPieces Place.origin pieces
    return { body, path := none }

end Template

end Stencil
