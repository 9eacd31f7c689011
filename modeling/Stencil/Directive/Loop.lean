import Stencil.Directive.Fault
import Stencil.Directive.Identifier
import Stencil.Template.Basic

/-! Loop directives `item[, key] in iterable`. The key is the shortest text that leaves a
blank, the word `in` and another blank behind it; the iterable is everything after these and
may contain the word again. -/

namespace Stencil.Directive

open Text (isBlank trimChars)

/-- What stands behind blanks, the word `in` and further blanks, if anything does. -/
def afterIn? : List Char → Option (List Char)
  | [] => none
  | c :: rest =>
    if isBlank c then
      match rest.dropWhile isBlank with
      | 'i' :: 'n' :: d :: tail =>
        if isBlank d then
          match tail.dropWhile isBlank with
          | [] => none
          | iterable => some iterable
        else none
      | _ => none
    else none

/-- The shortest key that the word `in` follows. It does not end in a blank, since the blanks
in front of the word are not part of it. -/
def keyAndIterable? : List Char → Option (List Char × List Char)
  | [] => none
  | c :: rest =>
    match if isBlank c then none else afterIn? rest with
    | some iterable => some ([c], iterable)
    | none => (keyAndIterable? rest).map fun (key, iterable) => (c :: key, iterable)

/-- Blanks behind the comma are skipped. Where that leaves no key, the first of them stands
for the key if another one follows it in front of the word `in`. -/
def keyAfterComma? (behind : List Char) : Option (List Char × List Char) :=
  match keyAndIterable? (behind.dropWhile isBlank) with
  | some found => some found
  | none =>
    match behind with
    | [] => none
    | c :: rest => if isBlank c then (afterIn? rest).map fun iterable => ([c], iterable) else none

/-- The item, the key and the iterable of a trimmed directive, untrimmed. -/
def splitLoop? (chars : List Char) : Option (List Char × Option (List Char) × List Char) :=
  let item := chars.takeWhile continuesIdentifier
  let tail := chars.dropWhile continuesIdentifier
  if isIdentifierChars item then
    match tail.dropWhile isBlank with
    | ',' :: behind => (keyAfterComma? behind).map fun (key, iterable) => (item, some key, iterable)
    | _ => (afterIn? tail).map fun iterable => (item, none, iterable)
  else none

/-- Reads a loop directive. Its key is checked before its iterable. -/
def readLoop (text : String) : Except Fault LoopSpec :=
  match splitLoop? (trimChars text.toList) with
  | none => .error .loopShape
  | some (item, key, iterable) => do
    let key := key.map trimChars
    let iterable := trimChars iterable
    match key with
    | none => pure ()
    | some key => (balanceFrom .code [] key).mapError .loopKey
    (balanceFrom .code [] iterable).mapError .loopIterable
    return { item := String.ofList item, key := key.map String.ofList,
             iterable := String.ofList iterable }

end Stencil.Directive
