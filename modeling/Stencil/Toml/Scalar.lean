import Stencil.Toml.Basic

/-! Scalars of TOML that stand without quotes: booleans, integers, floats, dates and times. -/

namespace Stencil.Toml

def isHexDigit (c : Char) : Bool := c.isDigit || ('a' ≤ c && c ≤ 'f') || ('A' ≤ c && c ≤ 'F')

def isOctalDigit (c : Char) : Bool := '0' ≤ c && c ≤ '7'

def isBinaryDigit (c : Char) : Bool := c = '0' || c = '1'

def digitValue (c : Char) : Nat :=
  if c.isDigit then c.toNat - 48 else c.toLower.toNat - 87

/-- Digits with single underscores between them. -/
def digits? (isMember : Char → Bool) : List Char → Option (List Char)
  | [] => none
  | [c] => if isMember c then some [c] else none
  | c :: '_' :: rest => if isMember c then (digits? isMember rest).map (c :: ·) else none
  | c :: rest => if isMember c then (digits? isMember rest).map (c :: ·) else none

def valueIn (base : Nat) (digits : List Char) : Nat :=
  digits.foldl (fun value c => base * value + digitValue c) 0

/-- A sign, if there is one, and what follows it. -/
def splitSign : List Char → Bool × List Char
  | '-' :: rest => (true, rest)
  | '+' :: rest => (false, rest)
  | rest => (false, rest)

def hasLeadingZero : List Char → Bool
  | '0' :: _ :: _ => true
  | _ => false

/-- Integers have to fit sixty-four bits. -/
def inRange? (value : Int) : Option Int :=
  if -0x8000000000000000 ≤ value ∧ value < 0x8000000000000000 then some value else none

def integer? : List Char → Option Int
  | '0' :: 'x' :: rest => do inRange? (valueIn 16 (← digits? isHexDigit rest))
  | '0' :: 'o' :: rest => do inRange? (valueIn 8 (← digits? isOctalDigit rest))
  | '0' :: 'b' :: rest => do inRange? (valueIn 2 (← digits? isBinaryDigit rest))
  | token => do
    let (negative, rest) := splitSign token
    let digits ← digits? Char.isDigit rest
    if hasLeadingZero digits then none
    else inRange? (if negative then -(valueIn 10 digits : Int) else valueIn 10 digits)

def isExponentMark (c : Char) : Bool := c = 'e' || c = 'E'

/-- The exponent at the end of a float, which is zero if there is none. -/
def exponent? : List Char → Option Int
  | [] => some 0
  | c :: rest =>
    if isExponentMark c then do
      let (negative, rest) := splitSign rest
      let size : Int := valueIn 10 (← digits? Char.isDigit rest)
      return if negative then -size else size
    else none

/-- The digits behind the point of a float and its exponent. One of the two may be missing. -/
def fraction? : List Char → Option (List Char × Int)
  | [] => none
  | '.' :: rest => do
    let digits ← digits? Char.isDigit (rest.takeWhile fun c => !isExponentMark c)
    let exponent ← exponent? (rest.dropWhile fun c => !isExponentMark c)
    return (digits, exponent)
  | rest => (exponent? rest).map ([], ·)

/-- Half a unit above the largest float, from where on numbers round to infinity. -/
def floatLimit : Nat := Nat.pow 2 1024 - Nat.pow 2 970

/-- Whether a decimal, digits times a power of ten, lies below the limit. Only a decimal with
as many digits before its point as the limit has to be compared in full. -/
def isBelowLimit (digits : List Char) (exponent : Int) : Bool :=
  let digits := digits.dropWhile (· = '0')
  let places := digits.length + exponent
  if digits.isEmpty || places < 309 then true
  else if 309 < places then false
  else if exponent < 0 then valueIn 10 digits < floatLimit * Nat.pow 10 exponent.natAbs
  else valueIn 10 digits * Nat.pow 10 exponent.natAbs < floatLimit

/-- Positive floats must not be too large. Negative ones have no such bound. -/
def isFloat (token : List Char) : Bool :=
  let (negative, rest) := splitSign token
  let whole := rest.takeWhile fun c => c.isDigit || c = '_'
  if rest = "inf".toList || rest = "nan".toList then true
  else match digits? Char.isDigit whole, fraction? (rest.drop whole.length) with
    | some digits, some (fraction, exponent) =>
      !hasLeadingZero digits &&
        (negative || isBelowLimit (digits ++ fraction) (exponent - fraction.length))
    | _, _ => false

/-- A number of two digits in a range. -/
def twoDigits (least most : Nat) (first second : Char) : Bool :=
  first.isDigit && second.isDigit &&
    (let value := valueIn 10 [first, second]
     least ≤ value && value ≤ most)

def isLeapYear (year : Nat) : Bool := year % 4 = 0 && (year % 100 ≠ 0 || year % 400 = 0)

def daysIn (year month : Nat) : Nat :=
  if month = 2 then (if isLeapYear year then 29 else 28)
  else if month = 4 || month = 6 || month = 9 || month = 11 then 30
  else 31

/-- What follows a date, if the text starts with one. -/
def afterDate? : List Char → Option (List Char)
  | y1 :: y2 :: y3 :: y4 :: '-' :: m1 :: m2 :: '-' :: d1 :: d2 :: rest =>
    if [y1, y2, y3, y4].all Char.isDigit && twoDigits 1 12 m1 m2 &&
        twoDigits 1 (daysIn (valueIn 10 [y1, y2, y3, y4]) (valueIn 10 [m1, m2])) d1 d2 then some rest
    else none
  | _ => none

/-- What follows a time of day, if the text starts with one. -/
def afterTime? : List Char → Option (List Char)
  | h1 :: h2 :: ':' :: m1 :: m2 :: ':' :: s1 :: s2 :: rest =>
    if twoDigits 0 23 h1 h2 && twoDigits 0 59 m1 m2 && twoDigits 0 60 s1 s2 then
      match rest with
      | '.' :: c :: more => if c.isDigit then some (more.dropWhile Char.isDigit) else none
      | _ => some rest
    else none
  | _ => none

def isOffset : List Char → Bool
  | [] => true
  | ['Z'] => true
  | ['z'] => true
  | [sign, h1, h2, ':', m1, m2] =>
    (sign = '+' || sign = '-') && twoDigits 0 23 h1 h2 && twoDigits 0 59 m1 m2
  | _ => false

def isMoment (token : List Char) : Bool :=
  match afterDate? token with
  | none => afterTime? token = some []
  | some [] => true
  | some (c :: rest) =>
    (c = 'T' || c = 't' || c = ' ') &&
      (match afterTime? rest with
        | none => false
        | some offset => isOffset offset)

def scalar? (token : List Char) : Option Toml :=
  if token = "true".toList then some (.boolean true)
  else if token = "false".toList then some (.boolean false)
  else match integer? token with
    | some value => some (.integer value)
    | none =>
      if isFloat token then some (.float (String.ofList token))
      else if isMoment token then some (.moment (String.ofList token))
      else none

end Stencil.Toml
