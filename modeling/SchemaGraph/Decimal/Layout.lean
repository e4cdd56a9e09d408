import SchemaGraph.Decimal.Shortest

/-! # Written decimals

A layout fixes how a double is written down: where positional digits end, whether a whole
number keeps a point, and what stands for the values without digits.
-/

namespace SchemaGraph.Decimal

/-- The choices of a written form. -/
structure Layout where
  /-- The neighbour that an exact tie takes. -/
  tie : Tie
  /-- The least and greatest leading exponent that is written positionally; without
      bounds, all are. -/
  positional : Option (Int × Int)
  /-- Whether a whole number in positional form ends in `.0`. -/
  pointed : Bool
  nan : String
  infinity : String
  negativeInfinity : String

/-- The exponent of the leading digit. -/
def leading (d : Decimal) : Int :=
  d.exponent + ((Nat.toDigits 10 d.digits).length : Int) - 1

/-- All digits in their places, with a point where one is needed. -/
def positionalText (d : Decimal) (pointed : Bool) : String :=
  let digits := Nat.toDigits 10 d.digits
  if 0 ≤ d.exponent then
    String.ofList (digits ++ List.replicate d.exponent.toNat '0') ++ if pointed then ".0" else ""
  else
    let places := (-d.exponent).toNat
    if places < digits.length then
      String.ofList (digits.take (digits.length - places) ++
        '.' :: digits.drop (digits.length - places))
    else String.ofList ('0' :: '.' :: List.replicate (places - digits.length) '0' ++ digits)

/-- One digit, the others behind a point, and the signed exponent. -/
def scientificText (d : Decimal) : String :=
  let digits := Nat.toDigits 10 d.digits
  let fraction := digits.drop 1
  let mantissa := digits.take 1 ++ if fraction.isEmpty then [] else '.' :: fraction
  let exponent := d.leading
  String.ofList mantissa ++ "e" ++ (if 0 ≤ exponent then "+" else "-") ++ toString exponent.natAbs

namespace Layout

/-- Write a double. -/
def write (layout : Layout) (x : Float) : String :=
  match Double.ofFloat x with
  | .nan => layout.nan
  | .infinite negative => if negative then layout.negativeInfinity else layout.infinity
  | .finite negative significand exponent =>
      let d := shortest layout.tie significand exponent
      let inPlace := match layout.positional with
        | none => true
        | some (least, greatest) => d.leading ≥ least && d.leading ≤ greatest
      (if negative then "-" else "") ++
        if inPlace then d.positionalText layout.pointed else d.scientificText

end Layout

end SchemaGraph.Decimal
