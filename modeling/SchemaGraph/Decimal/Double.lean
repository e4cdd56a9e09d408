/-! # Doubles as exact numbers

A double is a binary fraction, an infinity or no number at all. Everything that is
written about a double is computed from this form, in whole numbers.
-/

namespace SchemaGraph.Decimal

/-- What the 64 bits of a double stand for. -/
inductive Double where
  /-- No number. -/
  | nan
  /-- Beyond all numbers, on one side. -/
  | infinite (negative : Bool)
  /-- The number `significand · 2 ^ exponent`, with its sign; zero has a sign too. -/
  | finite (negative : Bool) (significand : Nat) (exponent : Int)
  deriving Repr, DecidableEq

namespace Double

/-- The bit before the fraction, which a normal double does not write. -/
def hiddenBit : Nat := 0x10000000000000

/-- Read 64 bits: one of sign, eleven of exponent, 52 of fraction. -/
def ofBits (bits : Nat) : Double :=
  let negative := bits / 0x8000000000000000 % 2 = 1
  let biased : Nat := bits / hiddenBit % 0x800
  let fraction := bits % hiddenBit
  if biased = 0x7ff then
    if fraction = 0 then .infinite negative else .nan
  else if biased = 0 then .finite negative fraction (-1074)
  else .finite negative (hiddenBit + fraction) ((biased : Int) - 1075)

def ofFloat (x : Float) : Double := ofBits x.toBits.toNat

end Double

end SchemaGraph.Decimal
