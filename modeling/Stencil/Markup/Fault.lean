import Stencil.Markup.Expectation

/-! What can be wrong with markup, and how it is worded. Apart from what the grammar expects,
scripts and loop elements are particular about their attributes. -/

namespace Stencil.Markup

inductive Fault where
  | expected (labels : List Label)
  | emptyScript
  | duplicateAttribute (name : String)
  | scriptAttribute (name : String)
  | loopAttribute (name : String)
  | secondExpression
  | missingExpression
deriving DecidableEq, Repr, Inhabited

def Fault.message : Fault → String
  | .expected [] => "unexpected input"
  | .expected labels => "expected " ++ joinLabels labels
  | .emptyScript => "<script> needs a body and a closing </script> tag"
  | .duplicateAttribute name => "duplicate attribute `" ++ name ++ "`"
  | .scriptAttribute name => "unsupported attribute `" ++ name ++ "` on <script>"
  | .loopAttribute name => "unsupported attribute `" ++ name ++ "` on <each>"
  | .secondExpression => "<each> takes a single `expression` attribute"
  | .missingExpression => "<each> requires an `expression` attribute"

end Stencil.Markup
