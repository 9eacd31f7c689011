/-! The SHA-256 digest of a byte sequence: padding to blocks of sixty-four bytes, a schedule
of sixty-four words for each block, and the compression of the chaining state. -/

namespace Stencil.Digest

/-- Fractional parts of the square roots of the first eight primes. -/
def initial : List UInt32 :=
  [0x6a09e667, 0xbb67ae85, 0x3c6ef372, 0xa54ff53a, 0x510e527f, 0x9b05688c, 0x1f83d9ab, 0x5be0cd19]

/-- Fractional parts of the cube roots of the first sixty-four primes. -/
def roundConstants : List UInt32 :=
  [0x428a2f98, 0x71374491, 0xb5c0fbcf, 0xe9b5dba5, 0x3956c25b, 0x59f111f1, 0x923f82a4, 0xab1c5ed5,
   0xd807aa98, 0x12835b01, 0x243185be, 0x550c7dc3, 0x72be5d74, 0x80deb1fe, 0x9bdc06a7, 0xc19bf174,
   0xe49b69c1, 0xefbe4786, 0x0fc19dc6, 0x240ca1cc, 0x2de92c6f, 0x4a7484aa, 0x5cb0a9dc, 0x76f988da,
   0x983e5152, 0xa831c66d, 0xb00327c8, 0xbf597fc7, 0xc6e00bf3, 0xd5a79147, 0x06ca6351, 0x14292967,
   0x27b70a85, 0x2e1b2138, 0x4d2c6dfc, 0x53380d13, 0x650a7354, 0x766a0abb, 0x81c2c92e, 0x92722c85,
   0xa2bfe8a1, 0xa81a664b, 0xc24b8b70, 0xc76c51a3, 0xd192e819, 0xd6990624, 0xf40e3585, 0x106aa070,
   0x19a4c116, 0x1e376c08, 0x2748774c, 0x34b0bcb5, 0x391c0cb3, 0x4ed8aa4a, 0x5b9cca4f, 0x682e6ff3,
   0x748f82ee, 0x78a5636f, 0x84c87814, 0x8cc70208, 0x90befffa, 0xa4506ceb, 0xbef9a3f7, 0xc67178f2]

def rotateRight (word : UInt32) (count : UInt32) : UInt32 :=
  (word >>> count) ||| (word <<< (32 - count))

/-- A number as eight bytes, most significant first. -/
def lengthBytes (number : Nat) : List UInt8 :=
  (List.range 8).map fun index => (number >>> (8 * (7 - index))).toUInt8

/-- The message, a one bit, zeros up to a whole number of blocks, and its length in bits. -/
def pad (message : List UInt8) : List UInt8 :=
  message ++ 0x80 :: List.replicate ((119 - message.length % 64) % 64) 0 ++
    lengthBytes (8 * message.length)

/-- Big-endian words of a byte sequence; an incomplete last word is dropped. -/
def words : List UInt8 → List UInt32
  | a :: b :: c :: d :: rest =>
    ((a.toUInt32 <<< 24) ||| (b.toUInt32 <<< 16) ||| (c.toUInt32 <<< 8) ||| d.toUInt32) :: words rest
  | _ => []

/-- Words in groups of sixteen; an incomplete last group is dropped. -/
def blocks : List UInt32 → List (List UInt32)
  | w0 :: w1 :: w2 :: w3 :: w4 :: w5 :: w6 :: w7 :: w8 :: w9 :: w10 :: w11 :: w12 :: w13 :: w14 ::
      w15 :: rest =>
    [w0, w1, w2, w3, w4, w5, w6, w7, w8, w9, w10, w11, w12, w13, w14, w15] :: blocks rest
  | _ => []

/-- The next word of a schedule, from the words so far with the latest one first. -/
def nextWord (latest : List UInt32) : UInt32 :=
  let older := latest.getD 14 0
  let newer := latest.getD 1 0
  latest.getD 15 0 +
    (rotateRight older 7 ^^^ rotateRight older 18 ^^^ (older >>> 3)) + latest.getD 6 0 +
    (rotateRight newer 17 ^^^ rotateRight newer 19 ^^^ (newer >>> 10))

/-- Adds a number of words to a schedule, latest first. -/
def extend : Nat → List UInt32 → List UInt32
  | 0, latest => latest
  | count + 1, latest => extend count (nextWord latest :: latest)

def schedule (block : List UInt32) : List UInt32 := (extend 48 block.reverse).reverse

/-- The eight words that a round works on. -/
structure Chain where
  a : UInt32
  b : UInt32
  c : UInt32
  d : UInt32
  e : UInt32
  f : UInt32
  g : UInt32
  h : UInt32

def Chain.ofList (start : List UInt32) : Chain where
  a := start.getD 0 0
  b := start.getD 1 0
  c := start.getD 2 0
  d := start.getD 3 0
  e := start.getD 4 0
  f := start.getD 5 0
  g := start.getD 6 0
  h := start.getD 7 0

def Chain.toList (chain : Chain) : List UInt32 :=
  [chain.a, chain.b, chain.c, chain.d, chain.e, chain.f, chain.g, chain.h]

/-- One round with its round constant and schedule word. -/
def Chain.round (chain : Chain) (constant word : UInt32) : Chain :=
  let mixed := rotateRight chain.e 6 ^^^ rotateRight chain.e 11 ^^^ rotateRight chain.e 25
  let choice := (chain.e &&& chain.f) ^^^ ((~~~ chain.e) &&& chain.g)
  let first := chain.h + mixed + choice + constant + word
  let spread := rotateRight chain.a 2 ^^^ rotateRight chain.a 13 ^^^ rotateRight chain.a 22
  let majority := (chain.a &&& chain.b) ^^^ (chain.a &&& chain.c) ^^^ (chain.b &&& chain.c)
  { a := first + (spread + majority), b := chain.a, c := chain.b, d := chain.c,
    e := chain.d + first, f := chain.e, g := chain.f, h := chain.g }

/-- Works one block into the chaining state. -/
def compress (state : List UInt32) (block : List UInt32) : List UInt32 :=
  let final := (roundConstants.zip (schedule block)).foldl
    (fun (chain : Chain) (constant, word) => chain.round constant word) (Chain.ofList state)
  List.zipWith (· + ·) state final.toList

def wordBytes (word : UInt32) : List UInt8 :=
  [(word >>> 24).toUInt8, (word >>> 16).toUInt8, (word >>> 8).toUInt8, word.toUInt8]

/-- The thirty-two bytes of the digest. -/
def sha256 (message : List UInt8) : List UInt8 :=
  ((blocks (words (pad message))).foldl compress initial).flatMap wordBytes

end Stencil.Digest
