import Stencil.Text.Continued
import Stencil.Text.Quoted

/-! Render statements. Each one is a line of the render function, or several where its text
runs over a line feed; a line is indented by two spaces for every statement that is open
around it. -/

namespace Stencil

/-- The key argument of an opened element: the token of the template, the key of the current
iteration, or that key with the ordinal of one of several nodes in the loop. -/
inductive Key where
  | token (content : String)
  | iteration
  | child (ordinal : Nat)
deriving DecidableEq, Repr, Inhabited

inductive Statement where
  | openElement (tag : String) (key : Option Key) (statics : Option String)
  | closeElement (tag : String)
  | text (content : String)
  | openGuard (condition : String)
  | closeGuard
  | setTarget (iterable : String)
  | openLoop
  | bindItem (item : String)
  | bindKey (token : String) (key : Option String)
  | closeLoop
  | script (code : String)
deriving DecidableEq, Repr, Inhabited

/-- The variable that holds what a loop runs over. -/
def targetName : String := "__target"

def Key.text : Key → String
  | .token content => Text.quoted content
  | .iteration => "$key"
  | .child ordinal => "$key + \"_" ++ ordinal.repr ++ "\""

namespace Statement

def arguments (tag : String) (key : Option Key) (statics : Option String) : List String :=
  Text.quoted tag :: (key.map Key.text).toList ++ statics.toList

def source : Statement → String
  | .openElement tag key statics =>
    "elementOpen(" ++ ", ".intercalate (arguments tag key statics) ++ ")"
  | .closeElement tag => "elementClose(" ++ Text.quoted tag ++ ")"
  | .text content => "text(" ++ Text.continued content ++ ")"
  | .openGuard condition => "if (" ++ condition ++ ") \x7b"
  | .closeGuard => "\x7d"
  | .setTarget iterable => targetName ++ " = " ++ iterable
  | .openLoop =>
    ";(" ++ targetName ++ ".forEach ? " ++ targetName ++ " : Object.keys(" ++ targetName ++
      ")).forEach(function($value, $item, $target) \x7b"
  | .bindItem item => "var " ++ item ++ " = $value"
  | .bindKey token key => "var $key = " ++ Text.quoted (token ++ "_") ++ " + " ++ key.getD "$item"
  | .closeLoop => "\x7d, this)"
  | .script code => code

-- The code of a statement as it is put together, which is not to be unfolded any further.
theorem source_openElement (tag : String) (key : Option Key) (statics : Option String) :
    (openElement tag key statics).source = "elementOpen(" ++ ", ".intercalate (arguments tag key statics) ++ ")" := rfl

theorem source_closeElement (tag : String) :
    (closeElement tag).source = "elementClose(" ++ Text.quoted tag ++ ")" := rfl

theorem source_text (content : String) : (text content).source = "text(" ++ Text.continued content ++ ")" := rfl

theorem source_openGuard (condition : String) : (openGuard condition).source = "if (" ++ condition ++ ") \x7b" := rfl

theorem source_setTarget (iterable : String) : (setTarget iterable).source = "__target" ++ " = " ++ iterable := rfl

theorem source_bindItem (item : String) : (bindItem item).source = "var " ++ item ++ " = $value" := rfl

theorem source_bindKey (token : String) (key : Option String) :
    (bindKey token key).source = "var $key = " ++ Text.quoted (token ++ "_") ++ " + " ++ key.getD "$item" := rfl

end Statement

/-- A statement with the number of statements that are open around it. -/
structure Line where
  depth : Nat
  statement : Statement
deriving DecidableEq, Repr, Inhabited

/-- Only the first line is indented: what follows belongs to a literal or to script code. -/
def Line.text (line : Line) : String :=
  String.ofList (List.replicate (2 * line.depth) ' ') ++ line.statement.source

end Stencil
