import Stencil.Digest
import Stencil.Text.Quoted

/-! Key tokens. Every key in a generated module starts with the token of its template; the
token is chosen by the options or derived from the template's name and source. -/

namespace Stencil

inductive KeyToken where
  | derived
  | fixed (token : String)
deriving DecidableEq, Repr, Inhabited

namespace KeyToken

def hexByte (byte : UInt8) : List Char := [Text.hexDigit (byte.toNat / 16), Text.hexDigit byte.toNat]

/-- The first four bytes of the digest of name and source, as two groups of four
hexadecimal digits. The zero byte keeps the end of the name apart from the start of the
source. -/
def derive (name : Option String) (source : String) : String :=
  let message := (name.getD "").toUTF8.toList ++ 0 :: source.toUTF8.toList
  let digits := ((Digest.sha256 message).take 4).flatMap hexByte
  String.ofList (digits.take 4 ++ '-' :: digits.drop 4)

/-- The token that a template gets. -/
def resolve (token : KeyToken) (name : Option String) (source : String) : String :=
  match token with
  | .derived => derive name source
  | .fixed token => token

end KeyToken

end Stencil
