import Stencil.Directive.Balance

/-! What can be wrong with the text of a directive, and how it is worded. -/

namespace Stencil.Directive

inductive Fault where
  | loopShape
  | loopKey (cause : Imbalance)
  | loopIterable (cause : Imbalance)
  | emptyCondition
  | condition (cause : Imbalance)
deriving DecidableEq, Repr, Inhabited

def Imbalance.message : Imbalance → String
  | .unbalanced bracket => "unbalanced `" ++ String.singleton bracket ++ "`"
  | .unterminated quote =>
    "unterminated string literal starting with `" ++ String.singleton quote ++ "`"
  | .unclosed bracket => "unclosed `" ++ String.singleton bracket ++ "`"

def Fault.message : Fault → String
  | .loopShape => "expected `item[, key] in iterable`"
  | .loopKey cause => "key expression: " ++ cause.message
  | .loopIterable cause => "iterable expression: " ++ cause.message
  | .emptyCondition => "empty condition"
  | .condition cause => cause.message

end Stencil.Directive
