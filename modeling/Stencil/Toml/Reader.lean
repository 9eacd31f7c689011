import Stencil.Toml.Scalar

/-! Reading TOML documents. All that is asked of a faulty document is that it is refused, so
a reader returns nothing where it fails. -/

namespace Stencil.Toml

abbrev Reader := StateT (List Char) Option

def isBareKeyChar (c : Char) : Bool := c.isAlphanum || c = '_' || c = '-'

/-- Control characters other than tabs are not allowed in comments and strings. -/
def isPlain (c : Char) : Bool := c = '\t' || (0x20 ≤ c.toNat && c.toNat ≠ 0x7F)

def isSpace (c : Char) : Bool := c = ' ' || c = '\t'

def takeWhile (isMember : Char → Bool) : Reader (List Char) := do
  let rest ← get
  set (rest.dropWhile isMember)
  return rest.takeWhile isMember

def skipSpaces : Reader Unit := do let _ ← takeWhile isSpace

def expect (c : Char) : Reader Unit := do
  match ← get with
  | first :: rest => if first = c then set rest else failure
  | [] => failure

/-- Whether the next character is this one; it is read if so. -/
def accept (c : Char) : Reader Bool := do
  match ← get with
  | first :: rest =>
    if first = c then do
      set rest
      return true
    else return false
  | [] => return false

/-- A comment up to the end of its line, if one starts here. -/
def skipComment : Reader Unit := do
  if ← accept '#' then
    let _ ← takeWhile isPlain

/-- The end of a line or of the document, behind spaces and a comment. -/
def endOfLine : Reader Unit := do
  skipSpaces
  skipComment
  match ← get with
  | [] => return
  | '\n' :: rest => set rest
  | '\r' :: '\n' :: rest => set rest
  | _ => failure

def charOf? (digits : List Char) : Option Char :=
  let code := valueIn 16 digits
  if digits.all isHexDigit && code.isValidChar then some (Char.ofNat code) else none

def escapeOf? (c : Char) : Option Char :=
  if c = 'b' then some '\x08'
  else if c = 't' then some '\t'
  else if c = 'n' then some '\n'
  else if c = 'f' then some '\x0c'
  else if c = 'r' then some '\r'
  else if c = '"' then some '"'
  else if c = '\\' then some '\\'
  else none

/-- The first character behind a backslash and what it stands for, with what follows. -/
def escape? : List Char → Option (Char × List Char)
  | 'u' :: a :: b :: c :: d :: rest => (charOf? [a, b, c, d]).map (·, rest)
  | 'U' :: a :: b :: c :: d :: e :: f :: g :: h :: rest =>
    (charOf? [a, b, c, d, e, f, g, h]).map (·, rest)
  | c :: rest => (escapeOf? c).map (·, rest)
  | [] => none

/-- The content of a string up to its closing quote. The budget bounds its length. -/
def basicContent : Nat → List Char → Option (List Char × List Char)
  | 0, _ => none
  | _, [] => none
  | budget + 1, c :: rest =>
    if c = '"' then some ([], rest)
    else if c = '\\' then do
      let (escaped, rest) ← escape? rest
      let (content, rest) ← basicContent budget rest
      return (escaped :: content, rest)
    else if isPlain c then do
      let (content, rest) ← basicContent budget rest
      return (c :: content, rest)
    else none

def literalContent : List Char → Option (List Char × List Char)
  | [] => none
  | c :: rest =>
    if c = '\'' then some ([], rest)
    else if isPlain c then do
      let (content, rest) ← literalContent rest
      return (c :: content, rest)
    else none

/-- Drops spaces and line ends. -/
def dropMargin : List Char → List Char
  | '\r' :: '\n' :: rest => dropMargin rest
  | c :: rest => if isSpace c || c = '\n' then dropMargin rest else c :: rest
  | [] => []

/-- The quotes that end a string over several lines. Two more may come before them and
belong to the string. -/
def closing? (quote : Char) (rest : List Char) : Option (List Char × List Char) :=
  let run := (rest.takeWhile (· = quote)).length
  if run < 3 then none
  else
    let extra := min (run - 3) 2
    some (List.replicate extra quote, rest.drop (extra + 3))

/-- The content of a string over several lines. A backslash at the end of a line joins the
next line that is not blank. -/
def longContent (quote : Char) : Nat → List Char → Option (List Char × List Char)
  | 0, _ => none
  | budget + 1, rest =>
    match closing? quote rest with
    | some found => some found
    | none =>
      match rest with
      | [] => none
      | '\r' :: '\n' :: rest => do
        let (content, rest) ← longContent quote budget rest
        return ('\n' :: content, rest)
      | c :: rest =>
        if c = '\\' ∧ quote = '"' then
          match rest.dropWhile isSpace with
          | '\n' :: below => longContent quote budget (dropMargin below)
          | '\r' :: '\n' :: below => longContent quote budget (dropMargin below)
          | _ => do
            let (escaped, rest) ← escape? rest
            let (content, rest) ← longContent quote budget rest
            return (escaped :: content, rest)
        else if isPlain c || c = '\n' then do
          let (content, rest) ← longContent quote budget rest
          return (c :: content, rest)
        else none

/-- A line feed directly behind the opening quotes is not part of the string. -/
def dropFirstLine : List Char → List Char
  | '\n' :: rest => rest
  | '\r' :: '\n' :: rest => rest
  | rest => rest

/-- A string on one line, behind its opening quote. -/
def shortString (quote : Char) : Reader String := do
  let rest ← get
  let (content, rest) ←
    if quote = '"' then basicContent (rest.length + 1) rest else literalContent rest
  set rest
  return String.ofList content

/-- A string of either kind, if one starts here. -/
def quotedString : Reader (Option String) := do
  match ← get with
  | a :: b :: c :: rest =>
    if (a = '"' || a = '\'') && b = a && c = a then do
      let start := dropFirstLine rest
      let (content, rest) ← longContent a (start.length + 1) start
      set rest
      return some (String.ofList content)
    else if a = '"' || a = '\'' then do
      set (b :: c :: rest)
      return some (← shortString a)
    else return none
  | a :: rest =>
    if a = '"' || a = '\'' then do
      set rest
      return some (← shortString a)
    else return none
  | [] => return none

def simpleKey : Reader String := do
  match ← get with
  | c :: rest =>
    if c = '"' || c = '\'' then do
      set rest
      shortString c
    else do
      let name ← takeWhile isBareKeyChar
      if name.isEmpty then failure else return String.ofList name
  | [] => failure

/-- A key has at most this many names, and at most this many arrays and inline tables can be
open at once. -/
def nestingLimit : Nat := 79

/-- Names with points between them, at most `budget` of them. -/
def dottedKey : Nat → Reader (List String)
  | 0 => failure
  | budget + 1 => do
    skipSpaces
    let name ← simpleKey
    skipSpaces
    if ← accept '.' then return name :: (← dottedKey budget) else return [name]

def key : Reader (List String) := dottedKey nestingLimit

def endsScalar (c : Char) : Bool :=
  isSpace c || c = '\n' || c = '\r' || c = ',' || c = ']' || c = '\x7d' || c = '#'

/-- A scalar without quotes. The space in the middle of a date with a time belongs to it. -/
def bareScalar : Reader Toml := do
  let token ← takeWhile fun c => !endsScalar c
  match ← get with
  | ' ' :: c :: _ =>
    if afterDate? token = some [] && c.isDigit then do
      expect ' '
      let time ← takeWhile fun c => !endsScalar c
      (scalar? (token ++ ' ' :: time) : Option Toml)
    else (scalar? token : Option Toml)
  | _ => (scalar? token : Option Toml)

/-- Spaces, line ends and comments between the items of an array. -/
def skipLines : Nat → Reader Unit
  | 0 => return
  | budget + 1 => do
    let _ ← takeWhile isSpace
    match ← get with
    | '#' :: _ => do
      endOfLine
      skipLines budget
    | '\n' :: _ => do
      endOfLine
      skipLines budget
    | '\r' :: _ => do
      endOfLine
      skipLines budget
    | _ => return

def skipMargin : Reader Unit := do skipLines ((← get).length + 1)

/-- Items up to the closing bracket; a comma may follow the last one. -/
def itemsOf (value : Reader Toml) : Nat → Reader (List Toml)
  | 0 => failure
  | budget + 1 => do
    skipMargin
    if ← accept ']' then return []
    let item ← value
    skipMargin
    if ← accept ',' then return item :: (← itemsOf value budget)
    expect ']'
    return [item]

/-- Fields up to the closing brace, all on one line. -/
def fieldsOf (value : Reader Toml) : Nat → Table → Reader Table
  | 0, _ => failure
  | budget + 1, fields => do
    let name ← key
    expect '='
    skipSpaces
    let content ← value
    skipSpaces
    let fields ← (Table.assign? fields false name content false : Option Table)
    if ← accept ',' then fieldsOf value budget fields
    else do
      expect '\x7d'
      return fields

/-- An array, behind its opening bracket. -/
def arrayOf (value : Reader Toml) : Reader Toml := do
  return .array (← itemsOf value ((← get).length + 1))

/-- An inline table, behind its opening brace. -/
def inlineOf (value : Reader Toml) : Reader Toml := do
  skipSpaces
  if ← accept '\x7d' then return .inline []
  else return .inline (← fieldsOf value ((← get).length + 1) [])

/-- A value, given how the values inside it are read, if it may have any. -/
def valueAround (inner : Option (Reader Toml)) : Reader Toml := do
  match ← quotedString with
  | some text => return .string text
  | none =>
    if ← accept '[' then arrayOf (← inner)
    else if ← accept '\x7b' then inlineOf (← inner)
    else bareScalar

/-- A value, in which at most `depth` arrays and inline tables are open at once. -/
def value : Nat → Reader Toml
  | 0 => valueAround none
  | depth + 1 => valueAround (some (value depth))

/-- A document in the course of being read: its tables, and the path of the header that
assignments go to. -/
structure Draft where
  root : Table
  path : List String

/-- Splits a path into what leads to a table and the name of the table. -/
def splitLast? (path : List String) : Option (List String × String) :=
  path.getLast?.map (path.dropLast, ·)

def header (draft : Draft) : Reader Draft := do
  let isElement ← accept '['
  let path ← key
  expect ']'
  if isElement then expect ']'
  endOfLine
  let (outer, name) ← (splitLast? path : Option (List String × String))
  let opened := if isElement then Table.openElement? name else Table.openTable? name
  let root ← (Table.changeAt? draft.root outer opened : Option Table)
  return { root, path }

def assignment (draft : Draft) : Reader Draft := do
  let name ← key
  expect '='
  skipSpaces
  let content ← value nestingLimit
  endOfLine
  let root ← (Table.changeAt? draft.root draft.path
    fun fields => Table.assign? fields false name content false : Option Table)
  return { draft with root }

def expression (draft : Draft) : Reader Draft := do
  skipSpaces
  match ← get with
  | [] => return draft
  | c :: _ =>
    if c = '#' || c = '\n' || c = '\r' then do
      endOfLine
      return draft
    else if c = '[' then do
      expect '['
      header draft
    else assignment draft

/-- Reads expressions to the end of the document. -/
def expressions : Nat → Draft → Reader Draft
  | 0, _ => failure
  | budget + 1, draft => do
    match ← get with
    | [] => return draft
    | _ => expressions budget (← expression draft)

/-- A byte order mark at the start is not part of a document. -/
def dropMark : List Char → List Char
  | c :: rest => if c.toNat = 0xFEFF then rest else c :: rest
  | [] => []

/-- The root table of a document. -/
def read? (document : String) : Option Table := do
  let chars := dropMark document.toList
  let (draft, _) ← (expressions (chars.length + 1) { root := [], path := [] }).run chars
  return draft.root

end Stencil.Toml
