import SchemaGraph.Decimal.Double

/-! # Shortest decimals

The decimal with the fewest digits among those that read back as a given double, and of
these the one nearest to it. The reals that read back form an interval around the
double; its ends belong to it when the significand is even. A grid of decimals with one
more digit than needed is never tried, because the grids are tried from coarse to fine.
-/

namespace SchemaGraph

/-- The number `digits · 10 ^ exponent`. -/
structure Decimal where
  digits : Nat
  exponent : Int
  deriving Repr, DecidableEq

namespace Decimal

/-- Which of two equally near decimals is taken. -/
inductive Tie where
  /-- The one with an even last digit. -/
  | even
  /-- The greater one. -/
  | up
  deriving Repr, DecidableEq

/-- A positive number and the interval that reads back as it, as numerators over one
    denominator. -/
structure Span where
  low : Nat
  value : Nat
  high : Nat
  den : Nat
  closed : Bool
  deriving Repr, DecidableEq

namespace Span

/-- The span of `significand · 2 ^ exponent`. Below a power of two the doubles are twice
    as dense, except below the least normal one. -/
def ofBinary (significand : Nat) (exponent : Int) : Span :=
  let narrow := significand = Double.hiddenBit ∧ exponent ≠ -1074
  let up := Nat.pow 2 exponent.toNat
  { low := (4 * significand - if narrow then 1 else 2) * up
    value := 4 * significand * up
    high := (4 * significand + 2) * up
    den := 4 * Nat.pow 2 (-exponent).toNat
    closed := significand % 2 = 0 }

/-- The same span counted in units of `10 ^ exponent`. -/
def onGrid (s : Span) (exponent : Int) : Span :=
  let up := Nat.pow 10 (-exponent).toNat
  { s with
    low := s.low * up
    value := s.value * up
    high := s.high * up
    den := s.den * Nat.pow 10 exponent.toNat }

/-- Whether the whole number `n` lies in the span. -/
def holds (s : Span) (n : Nat) : Bool :=
  if s.closed then s.low ≤ n * s.den && n * s.den ≤ s.high
  else s.low < n * s.den && n * s.den < s.high

/-- The whole number in the span that is nearest to its value, if the span holds one of
    the two neighbours of the value. -/
def nearest? (s : Span) (tie : Tie) : Option Nat :=
  let below := s.value / s.den
  match s.holds below, s.holds (below + 1) with
  | true, true =>
      match compare (2 * s.value) ((2 * below + 1) * s.den) with
      | .lt => some below
      | .gt => some (below + 1)
      | .eq => some (if tie = .even ∧ below % 2 = 0 then below else below + 1)
  | true, false => some below
  | false, true => some (below + 1)
  | false, false => none

/-- The exponent of the leading decimal digit of the value. -/
def magnitude (s : Span) : Int :=
  if s.den ≤ s.value then ((Nat.toDigits 10 (s.value / s.den)).length : Int) - 1
  else -((Nat.toDigits 10 ((s.den - 1) / s.value)).length : Int)

end Span

/-- Try the grids of `10 ^ exponent` and below; the count bounds the number of tries. -/
def search (s : Span) (tie : Tie) (exponent : Int) : Nat → Decimal
  | 0 => ⟨0, 0⟩
  | tries + 1 =>
      match (s.onGrid exponent).nearest? tie with
      | some n => ⟨n, exponent⟩
      | none => search s tie (exponent - 1) tries

/-- Move trailing zeros of the digits into the exponent; the count bounds their number. -/
def trim (d : Decimal) : Nat → Decimal
  | 0 => d
  | count + 1 => if d.digits % 10 = 0 then trim ⟨d.digits / 10, d.exponent + 1⟩ count else d

/-- The shortest decimal that reads back as `significand · 2 ^ exponent`; seventeen digits
    always do. -/
def shortest (tie : Tie) (significand : Nat) (exponent : Int) : Decimal :=
  if significand = 0 then ⟨0, 0⟩
  else
    let s := Span.ofBinary significand exponent
    (search s tie s.magnitude 18).trim 18

end Decimal

end SchemaGraph
