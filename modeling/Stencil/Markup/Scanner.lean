/-! Scanners read from the front of a source. A scanner either fails or returns a value and
the place it stopped at, and in both cases lists the grammar rules it tried. The list is
only ever added to, so no decision of a scanner can depend on it. -/

namespace Stencil.Markup

/-- The rules that error messages speak of, in the order in which they are listed. -/
inductive Rule where
  | endOfInput
  | template
  | text
  | tagName
  | voidTag
  | attributeName
  | doubleQuotedValue
  | singleQuotedValue
  | bareValue
  | attribute
  | script
  | scriptBody
  | emptyScript
  | voidElement
  | selfClosing
  | element
deriving DecidableEq, Repr, Inhabited

/-- What is left of the source and how much that is, which is kept so that it need not be
counted again, and the tags that wait for their closing tag, innermost first. -/
structure Cursor where
  rest : List Char
  opened : List (List Char) := []
  left : Nat := rest.length
  left_eq : left = rest.length := by rfl
deriving DecidableEq, Repr

/-- Goes on by a number of characters. -/
def Cursor.skip (cursor : Cursor) (count : Nat) : Cursor where
  rest := cursor.rest.drop count
  opened := cursor.opened
  left := cursor.left - count
  left_eq := by simp [cursor.left_eq]

/-- One run of a rule: how much was left of the source, whether the rule matched, and the
runs it made in turn. -/
inductive Attempt where
  | run (rule : Rule) (left : Nat) (matched : Bool) (inner : List Attempt)
deriving Repr, Inhabited

/-- One list of runs after another. The first list is not copied if the second one is empty,
as it is behind every scanner that only returns. -/
def Attempt.sequence (first second : List Attempt) : List Attempt :=
  match second with
  | [] => first
  | _ => first ++ second

@[simp] theorem Attempt.sequence_eq (first second : List Attempt) :
    Attempt.sequence first second = first ++ second := by
  cases second <;> simp [Attempt.sequence]

structure Outcome (α : Type) where
  found : Option (α × Cursor)
  trace : List Attempt

def Scanner (α : Type) := Cursor → Outcome α

namespace Scanner

variable {α β : Type}

def succeed (value : α) : Scanner α := fun cursor => ⟨some (value, cursor), []⟩

def fail : Scanner α := fun _ => ⟨none, []⟩

/-- Runs the second scanner where the first one stopped. -/
def andThen (first : Scanner α) (second : α → Scanner β) : Scanner β := fun cursor =>
  let outcome := first cursor
  match outcome.found with
  | none => ⟨none, outcome.trace⟩
  | some (value, next) =>
    let continued := second value next
    ⟨continued.found, Attempt.sequence outcome.trace continued.trace⟩

instance : Monad Scanner where
  pure := succeed
  bind := andThen

/-- Runs the second scanner, from the same place, only if the first one fails. -/
def orElse (first second : Scanner α) : Scanner α := fun cursor =>
  let outcome := first cursor
  match outcome.found with
  | some _ => outcome
  | none =>
    let alternative := second cursor
    ⟨alternative.found, Attempt.sequence outcome.trace alternative.trace⟩

/-- The first scanner of the list that succeeds. -/
def firstOf : List (Scanner α) → Scanner α
  | [] => fail
  | scanner :: others => orElse scanner (firstOf others)

/-- Never fails: where the scanner does, nothing is read. -/
def maybe (scanner : Scanner α) : Scanner (Option α) := fun cursor =>
  let outcome := scanner cursor
  match outcome.found with
  | some (value, next) => ⟨some (some value, next), outcome.trace⟩
  | none => ⟨some (none, cursor), outcome.trace⟩

/-- Notes the run of a scanner under the name of a rule. -/
def named (rule : Rule) (scanner : Scanner α) : Scanner α := fun cursor =>
  let outcome := scanner cursor
  ⟨outcome.found, [.run rule cursor.left outcome.found.isSome outcome.trace]⟩

/-- What is left of the source, which stays unread. -/
def lookAhead : Scanner (List Char) := fun cursor => ⟨some (cursor.rest, cursor), []⟩

def require (condition : Bool) : Scanner Unit := if condition then succeed () else fail

/-- Reads exactly these characters. -/
def exactly (expected : List Char) : Scanner Unit := fun cursor =>
  if expected.isPrefixOf cursor.rest then ⟨some ((), cursor.skip expected.length), []⟩
  else ⟨none, []⟩

/-- The longest front part of a text such that `stop` holds of nothing that starts in it. -/
def untilStop (stop : List Char → Bool) : List Char → List Char
  | [] => []
  | c :: rest => if stop (c :: rest) then [] else c :: untilStop stop rest

/-- Reads up to the first place at which `stop` holds, or to the end. -/
def takeUntil (stop : List Char → Bool) : Scanner (List Char) := fun cursor =>
  let taken := untilStop stop cursor.rest
  ⟨some (taken, cursor.skip taken.length), []⟩

/-- As `takeUntil`, but at least one character has to be read. -/
def takeSomeUntil (stop : List Char → Bool) : Scanner (List Char) := do
  let taken ← takeUntil stop
  require (!taken.isEmpty)
  return taken

/-- Reads the longest run of characters of a class. -/
def takeWhile (isMember : Char → Bool) : Scanner (List Char) :=
  takeUntil fun rest => !(rest.head?.any isMember)

def takeSome (isMember : Char → Bool) : Scanner (List Char) :=
  takeSomeUntil fun rest => !(rest.head?.any isMember)

/-- From here on a closing tag of this name is waited for. -/
def pushTag (tag : List Char) : Scanner Unit := fun cursor =>
  ⟨some ((), { cursor with opened := tag :: cursor.opened }), []⟩

/-- Reads the tag that is waited for, exactly as it was opened, and waits no longer. -/
def popTag : Scanner Unit := fun cursor =>
  match cursor.opened with
  | [] => ⟨none, []⟩
  | tag :: outer =>
    if tag.isPrefixOf cursor.rest then
      ⟨some ((), { cursor.skip tag.length with opened := outer }), []⟩
    else ⟨none, []⟩

/-- Waits no longer for the innermost tag. -/
def dropTag : Scanner Unit := fun cursor =>
  match cursor.opened with
  | [] => ⟨none, []⟩
  | _ :: outer => ⟨some ((), { cursor with opened := outer }), []⟩

end Scanner

end Stencil.Markup
