import Stencil.Markup.Scanner

/-! What was expected where a source could not be read. Of all the rules that failed, those
that failed farthest into the source count; a rule takes the place of the rules it tried in
turn, unless there is exactly one of these. -/

namespace Stencil.Markup

/-- The farthest place at which a rule failed, by what was left of the source there, and the
rules that failed at it. -/
structure Frontier where
  left : Nat
  rules : List Rule
deriving DecidableEq, Repr, Inhabited

namespace Frontier

/-- How many rules have failed at a place, as far as the frontier knows. -/
def countAt (frontier : Frontier) (left : Nat) : Nat :=
  if left = frontier.left then frontier.rules.length else 0

/-- A rule failed at a place where `before` rules had failed when it was entered. -/
def record (frontier : Frontier) (rule : Rule) (left before : Nat) : Frontier :=
  if frontier.countAt left = before + 1 then frontier
  else if left < frontier.left then ⟨left, [rule]⟩
  else if left = frontier.left then ⟨left, frontier.rules.take before ++ [rule]⟩
  else frontier

end Frontier

mutual

/-- The frontier after one more run of a rule. -/
def Attempt.follow (frontier : Frontier) : Attempt → Frontier
  | .run rule left matched inner =>
    let entered := frontier.countAt left
    let after := followAll frontier inner
    if matched then after else after.record rule left entered

def followAll (frontier : Frontier) : List Attempt → Frontier
  | [] => frontier
  | attempt :: later => followAll (attempt.follow frontier) later

end

/-- What a reader of the message is told to write. -/
inductive Label where
  | endOfInput
  | markup
  | text
  | tagName
  | voidTag
  | attribute
  | attributeValue
  | script
  | element
deriving DecidableEq, Repr, Inhabited

def Rule.label : Rule → Label
  | .endOfInput => .endOfInput
  | .template => .markup
  | .text => .text
  | .tagName => .tagName
  | .voidTag => .voidTag
  | .attributeName => .attribute
  | .attribute => .attribute
  | .doubleQuotedValue => .attributeValue
  | .singleQuotedValue => .attributeValue
  | .bareValue => .attributeValue
  | .script => .script
  | .scriptBody => .script
  | .emptyScript => .script
  | .voidElement => .element
  | .selfClosing => .element
  | .element => .element

def Label.wording : Label → String
  | .endOfInput => "end of input"
  | .markup => "markup"
  | .text => "text"
  | .tagName => "tag name"
  | .voidTag => "void element name"
  | .attribute => "attribute"
  | .attributeValue => "attribute value"
  | .script => "script"
  | .element => "element"

/-- All rules in the order in which they are listed. -/
def Rule.all : List Rule :=
  [.endOfInput, .template, .text, .tagName, .voidTag, .attributeName, .doubleQuotedValue,
   .singleQuotedValue, .bareValue, .attribute, .script, .scriptBody, .emptyScript, .voidElement,
   .selfClosing, .element]

/-- The labels of the rules at the frontier, each once, in the order of the rules. -/
def Frontier.labels (frontier : Frontier) : List Label :=
  ((Rule.all.filter frontier.rules.contains).map Rule.label).eraseDups

/-- Joins labels as `a, b or c`. -/
def joinLabels : List Label → String
  | [] => ""
  | [last] => last.wording
  | [first, last] => first.wording ++ " or " ++ last.wording
  | first :: rest => first.wording ++ ", " ++ joinLabels rest

end Stencil.Markup
