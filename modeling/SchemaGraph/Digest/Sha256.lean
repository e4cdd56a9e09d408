/-! # SHA-256

The Secure Hash Algorithm with 256-bit digests, over lists of bytes. A message is padded
to whole blocks of 64 bytes; each block is spread over 64 words, which are mixed one
after the other into eight chaining words.
-/

namespace SchemaGraph.Digest.Sha256

/-- The first 32 bits of the fractional parts of the cube roots of the first 64 primes. -/
def roundConstants : List UInt32 := [
  0x428a2f98, 0x71374491, 0xb5c0fbcf, 0xe9b5dba5, 0x3956c25b, 0x59f111f1, 0x923f82a4, 0xab1c5ed5,
  0xd807aa98, 0x12835b01, 0x243185be, 0x550c7dc3, 0x72be5d74, 0x80deb1fe, 0x9bdc06a7, 0xc19bf174,
  0xe49b69c1, 0xefbe4786, 0x0fc19dc6, 0x240ca1cc, 0x2de92c6f, 0x4a7484aa, 0x5cb0a9dc, 0x76f988da,
  0x983e5152, 0xa831c66d, 0xb00327c8, 0xbf597fc7, 0xc6e00bf3, 0xd5a79147, 0x06ca6351, 0x14292967,
  0x27b70a85, 0x2e1b2138, 0x4d2c6dfc, 0x53380d13, 0x650a7354, 0x766a0abb, 0x81c2c92e, 0x92722c85,
  0xa2bfe8a1, 0xa81a664b, 0xc24b8b70, 0xc76c51a3, 0xd192e819, 0xd6990624, 0xf40e3585, 0x106aa070,
  0x19a4c116, 0x1e376c08, 0x2748774c, 0x34b0bcb5, 0x391c0cb3, 0x4ed8aa4a, 0x5b9cca4f, 0x682e6ff3,
  0x748f82ee, 0x78a5636f, 0x84c87814, 0x8cc70208, 0x90befffa, 0xa4506ceb, 0xbef9a3f7, 0xc67178f2]

/-- The eight chaining words. -/
structure Chaining where
  a : UInt32
  b : UInt32
  c : UInt32
  d : UInt32
  e : UInt32
  f : UInt32
  g : UInt32
  h : UInt32
  deriving Repr, DecidableEq

namespace Chaining

/-- The first 32 bits of the fractional parts of the square roots of the first 8 primes. -/
def initial : Chaining :=
  ⟨0x6a09e667, 0xbb67ae85, 0x3c6ef372, 0xa54ff53a, 0x510e527f, 0x9b05688c, 0x1f83d9ab, 0x5be0cd19⟩

def words (s : Chaining) : List UInt32 := [s.a, s.b, s.c, s.d, s.e, s.f, s.g, s.h]

def add (s t : Chaining) : Chaining :=
  ⟨s.a + t.a, s.b + t.b, s.c + t.c, s.d + t.d, s.e + t.e, s.f + t.f, s.g + t.g, s.h + t.h⟩

end Chaining

def rotateRight (x : UInt32) (n : UInt32) : UInt32 := (x >>> n) ||| (x <<< (32 - n))

/-- Mix one constant and one word of the schedule into the chaining words. -/
def round (s : Chaining) (input : UInt32 × UInt32) : Chaining :=
  let sum1 := rotateRight s.e 6 ^^^ rotateRight s.e 11 ^^^ rotateRight s.e 25
  let choice := (s.e &&& s.f) ^^^ (~~~s.e &&& s.g)
  let temp1 := s.h + sum1 + choice + input.1 + input.2
  let sum0 := rotateRight s.a 2 ^^^ rotateRight s.a 13 ^^^ rotateRight s.a 22
  let majority := (s.a &&& s.b) ^^^ (s.a &&& s.c) ^^^ (s.b &&& s.c)
  ⟨temp1 + sum0 + majority, s.a, s.b, s.c, s.d + temp1, s.e, s.f, s.g⟩

/-- Add `count` words to a schedule whose latest word stands first. -/
def extend : Nat → List UInt32 → List UInt32
  | 0, latest => latest
  | count + 1, latest =>
      let x := latest.getD 14 0
      let y := latest.getD 1 0
      let mix0 := rotateRight x 7 ^^^ rotateRight x 18 ^^^ (x >>> 3)
      let mix1 := rotateRight y 17 ^^^ rotateRight y 19 ^^^ (y >>> 10)
      extend count ((mix1 + latest.getD 6 0 + mix0 + latest.getD 15 0) :: latest)

/-- The 64 words of a block of sixteen. -/
def schedule (block : List UInt32) : List UInt32 := (extend 48 block.reverse).reverse

/-- Mix a whole block of sixteen words. -/
def compress (s : Chaining) (block : List UInt32) : Chaining :=
  s.add ((roundConstants.zip (schedule block)).foldl round s)

/-- The bytes of a number, most significant first. -/
def bigEndian (count n : Nat) : List UInt8 :=
  (List.range count).reverse.map fun place => UInt8.ofNat (n / Nat.pow 256 place)

/-- A message with a one bit, zero bits and its length in bits, to a multiple of 64 bytes. -/
def pad (message : List UInt8) : List UInt8 :=
  let zeros := (119 - message.length % 64) % 64
  message ++ 0x80 :: List.replicate zeros 0 ++ bigEndian 8 (8 * message.length)

/-- Groups of four bytes as words, most significant byte first. -/
def words : List UInt8 → List UInt32
  | a :: b :: c :: d :: rest =>
      (a.toUInt32 <<< 24 ||| b.toUInt32 <<< 16 ||| c.toUInt32 <<< 8 ||| d.toUInt32) :: words rest
  | _ => []

/-- Mix in sixteen words at a time; the count bounds the number of blocks. -/
def absorb (s : Chaining) (input : List UInt32) : Nat → Chaining
  | 0 => s
  | blocks + 1 =>
      if input.isEmpty then s else absorb (compress s (input.take 16)) (input.drop 16) blocks

/-- The digest of a message as eight words. -/
def digest (message : List UInt8) : List UInt32 :=
  let input := words (pad message)
  (absorb .initial input input.length).words

def hexDigit (n : Nat) : Char := "0123456789ABCDEF".toList.getD n '0'

/-- A word in eight upper-case hexadecimal digits. -/
def hexWord (w : UInt32) : List Char :=
  [7, 6, 5, 4, 3, 2, 1, 0].map fun place => hexDigit (w.toNat / Nat.pow 16 place % 16)

/-- The digest of a text in UTF-8, in 64 upper-case hexadecimal digits. -/
def ofText (text : String) : String :=
  String.ofList ((digest text.toUTF8.toList).flatMap hexWord)

end SchemaGraph.Digest.Sha256
