import Mathlib
import Stencil.Toml.Scalar

/-! Scanners of string literals. A scanner starts at a double quote and goes on to the next one that is
not escaped. Literals of JSON and literals of a script are scanned in the same way; they differ in what
may stand between the quotes as it is, and in what can be written behind a backslash. -/

namespace Stencil.Proofs.LiteralScanning
open Toml (isHexDigit valueIn)

structure Dialect where
  /-- The characters that stand for themselves. -/
  plain : Char → Bool
  /-- What is written behind a backslash: the text it stands for, and how many characters it takes. -/
  escape? : List Char → Option (List Char × Nat)

/-- The content of a literal up to its closing quote, and what is left behind it. -/
def content? (dialect : Dialect) : List Char → Option (List Char × List Char)
  | [] => none
  | c :: rest =>
    if c = '"' then some ([], rest)
    else if c = '\\' then
      match dialect.escape? rest with
      | none => none
      | some (value, taken) =>
        (content? dialect (rest.drop taken)).map fun (content, left) => (value ++ content, left)
    else if dialect.plain c then (content? dialect rest).map fun (content, left) => (c :: content, left)
    else none
termination_by chars => chars.length
decreasing_by
  · simp only [List.length_drop, List.length_cons]
    omega
  · simp only [List.length_cons]
    omega

def literal? (dialect : Dialect) : List Char → Option (String × List Char)
  | '"' :: rest => (content? dialect rest).map fun (content, left) => (String.ofList content, left)
  | _ => none

theorem content_shorter {dialect : Dialect} {chars content left : List Char}
    (read : content? dialect chars = some (content, left)) : left.length < chars.length := by
  fun_induction content? dialect chars generalizing content with
  | case1 => cases read
  | case2 => cases read; simp
  | case3 => cases read
  | case4 rest _ value taken _ ih =>
    obtain ⟨⟨content', left'⟩, inside, same⟩ := Option.map_eq_some_iff.mp read
    cases same
    have shorter := ih inside
    simp only [List.length_drop, List.length_cons] at shorter ⊢
    omega
  | case5 c rest _ _ _ ih =>
    obtain ⟨⟨content', left'⟩, inside, same⟩ := Option.map_eq_some_iff.mp read
    cases same
    have shorter := ih inside
    simp only [List.length_cons]
    omega
  | case6 => cases read

theorem literal_shorter {dialect : Dialect} {chars left : List Char} {text : String}
    (read : literal? dialect chars = some (text, left)) : left.length < chars.length := by
  unfold literal? at read
  split at read
  next rest =>
    obtain ⟨⟨content, left⟩, inside, same⟩ := Option.map_eq_some_iff.mp read
    cases same
    have shorter := content_shorter inside
    simp only [List.length_cons]
    omega
  next => cases read

/-- A code unit in four hexadecimal digits. -/
def unit? : List Char → Option Nat
  | a :: b :: c :: d :: _ =>
    if [a, b, c, d].all isHexDigit then some (valueIn 16 [a, b, c, d]) else none
  | _ => none

/-- What stands behind a backslash and the letter `u`: the unit of a character, or the two surrogates of
one, the second one behind a backslash and the letter again. -/
def unicode? (chars : List Char) : Option (List Char × Nat) := do
  let unit ← unit? chars
  if unit.isValidChar then return ([Char.ofNat unit], 4)
  match chars.drop 4 with
  | '\\' :: 'u' :: more =>
    let low ← unit? more
    if 0xD800 ≤ unit ∧ unit < 0xDC00 ∧ 0xDC00 ≤ low ∧ low < 0xE000 then
      return ([Char.ofNat (0x10000 + 0x400 * (unit - 0xD800) + (low - 0xDC00))], 10)
    else none
  | _ => none

theorem unicode_of_valid {chars : List Char} {unit : Nat} (read : unit? chars = some unit) (valid : unit.isValidChar) :
    unicode? chars = some ([Char.ofNat unit], 4) := by
  simp [unicode?, read, valid]

/-- The letters for control characters that both kinds of literals have. -/
def controls : List (Char × Char) := [('b', '\x08'), ('f', '\x0c'), ('n', '\n'), ('r', '\r'), ('t', '\t')]

/-- Literals of JSON: control characters have to be escaped, and no other escapes exist than these. -/
def json : Dialect where
  plain c := 0x20 ≤ c.toNat
  escape?
    | 'u' :: rest => (unicode? rest).map fun (value, taken) => (value, taken + 1)
    | c :: _ =>
      if c = '"' || c = '\\' || c = '/' then some ([c], 1)
      else (controls.lookup c).map fun value => ([value], 1)
    | [] => none

/-- Line ends of a script. -/
def endsLine (c : Char) : Bool := c = '\n' || c = '\r' || c = '\u2028' || c = '\u2029'

/-- Literals of a script: a line does not end inside of one, unless a backslash stands in front of the
line end. Then the literal goes on as if there were neither. What has no meaning of its own behind a
backslash stands for itself. -/
def script : Dialect where
  plain c := c ≠ '\n' && c ≠ '\r'
  escape?
    | '\r' :: '\n' :: _ => some ([], 2)
    | 'x' :: a :: b :: _ =>
      if isHexDigit a && isHexDigit b then some ([Char.ofNat (valueIn 16 [a, b])], 3) else none
    | 'u' :: '\x7b' :: rest =>
      let digits := rest.takeWhile isHexDigit
      let code := valueIn 16 digits
      if digits ≠ [] ∧ code.isValidChar ∧ (rest.dropWhile isHexDigit).head? = some '\x7d' then
        some ([Char.ofNat code], digits.length + 3)
      else none
    | 'u' :: rest => (unicode? rest).map fun (value, taken) => (value, taken + 1)
    | c :: rest =>
      if endsLine c then some ([], 1)
      else if c = '0' ∧ ¬ rest.head?.any Char.isDigit then some (['\x00'], 1)
      else if c.isDigit || c = 'x' then none
      else some ([((('v', '\x0b') :: controls).lookup c).getD c], 1)
    | [] => none

variable {dialect : Dialect}

/-- What is written like this inside a literal is read as `value`, whatever stands behind it. -/
def Reads (dialect : Dialect) (written value : List Char) : Prop :=
  ∀ rest, content? dialect (written ++ rest) =
    (content? dialect rest).map fun (content, left) => (value ++ content, left)

theorem reads_nil : Reads dialect [] [] := by
  intro rest
  simp

theorem Reads.append {first second value value' : List Char} (one : Reads dialect first value)
    (other : Reads dialect second value') : Reads dialect (first ++ second) (value ++ value') := by
  intro rest
  rw [List.append_assoc, one, other, Option.map_map]
  simp [Function.comp_def]

theorem reads_plain {c : Char} (plain : dialect.plain c = true) (unquoted : c ≠ '"') (unescaped : c ≠ '\\') :
    Reads dialect [c] [c] := by
  intro rest
  rw [List.cons_append, content?, if_neg unquoted, if_neg unescaped, if_pos plain]
  rfl

theorem reads_escape {code value : List Char}
    (escape : ∀ rest, dialect.escape? (code ++ rest) = some (value, code.length)) :
    Reads dialect ('\\' :: code) value := by
  intro rest
  rw [List.cons_append, content?, if_neg (by decide), if_pos rfl, escape]
  simp

theorem reads_flatMap {written value : Char → List Char} (reads : ∀ c, Reads dialect (written c) (value c))
    (chars : List Char) : Reads dialect (chars.flatMap written) (chars.flatMap value) := by
  induction chars with
  | nil => exact reads_nil
  | cons c chars ih =>
    rw [List.flatMap_cons, List.flatMap_cons]
    exact (reads c).append ih

theorem Reads.literal {written value : List Char} (reads : Reads dialect written value) (rest : List Char) :
    literal? dialect ('"' :: (written ++ '"' :: rest)) = some (String.ofList value, rest) := by
  have closed : content? dialect ('"' :: rest) = some ([], rest) := by rw [content?, if_pos rfl]
  have read := reads ('"' :: rest)
  rw [closed] at read
  simp [literal?, read]

end Stencil.Proofs.LiteralScanning
