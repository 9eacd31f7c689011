/-! Balance of expressions. Expressions are not parsed; it is only checked that brackets
nest and that string literals are closed. Brackets inside a literal do not count, and a
backslash there takes the next character with it. -/

namespace Stencil.Directive

inductive Imbalance where
  | unbalanced (bracket : Char)
  | unterminated (quote : Char)
  | unclosed (bracket : Char)
deriving DecidableEq, Repr, Inhabited

/-- Where the check stands: between literals, inside one, or behind a backslash in one. -/
inductive Region where
  | code
  | literal (quote : Char)
  | escape (quote : Char)
deriving DecidableEq, Repr, Inhabited

def isQuote (c : Char) : Bool := c = '"' || c = '\'' || c = '\x60'

def isOpening (c : Char) : Bool := c = '(' || c = '[' || c = '\x7b'

/-- The bracket that a closing bracket closes. -/
def openingOf (c : Char) : Option Char :=
  if c = ')' then some '('
  else if c = ']' then some '['
  else if c = '\x7d' then some '\x7b'
  else none

/-- Checks the rest of an expression, given the brackets that are open, innermost first. -/
def balanceFrom : Region → List Char → List Char → Except Imbalance Unit
  | .code, [], [] => .ok ()
  | .code, bracket :: _, [] => .error (.unclosed bracket)
  | .literal quote, _, [] => .error (.unterminated quote)
  | .escape quote, _, [] => .error (.unterminated quote)
  | .code, stack, c :: rest =>
    if isQuote c then balanceFrom (.literal c) stack rest
    else if isOpening c then balanceFrom .code (c :: stack) rest
    else match openingOf c with
      | none => balanceFrom .code stack rest
      | some bracket =>
        match stack with
        | top :: below =>
          if top = bracket then balanceFrom .code below rest else .error (.unbalanced c)
        | [] => .error (.unbalanced c)
  | .literal quote, stack, c :: rest =>
    if c = '\\' then balanceFrom (.escape quote) stack rest
    else if c = quote then balanceFrom .code stack rest
    else balanceFrom (.literal quote) stack rest
  | .escape quote, stack, _ :: rest => balanceFrom (.literal quote) stack rest

def balance (expression : String) : Except Imbalance Unit :=
  balanceFrom .code [] expression.toList

end Stencil.Directive
