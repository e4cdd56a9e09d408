/-! # Decimals read by scaling

A decimal text is read as its leading digits, as many as fit into a 64-bit word, taken as
a double and scaled by one power of ten after the other. Two roundings make the result
differ from the nearest double in the last place for some long texts.
-/

namespace SchemaGraph.Decimal

/-- The double nearest to `10 ^ exponent`. -/
def powerOfTen (exponent : Nat) : Float := Float.ofScientific 1 false exponent

/-- Divide by `10 ^ exponent`, in steps of at most `10 ^ 308`; zero stays zero. -/
def scaleDown (x : Float) (exponent : Nat) : Float :=
  if exponent ≤ 308 then x / powerOfTen exponent
  else if x == 0.0 then x
  else scaleDown (x / powerOfTen 308) (exponent - 308)
  termination_by exponent

/-- The double for `word · 10 ^ exponent`, and nothing when it is beyond all doubles. -/
def scaled (word : UInt64) (exponent : Int) : Option Float :=
  let x := word.toFloat
  if exponent < 0 then some (scaleDown x exponent.natAbs)
  else if exponent ≤ 308 then
    let scaledUp := x * powerOfTen exponent.toNat
    if scaledUp.isInf then none else some scaledUp
  else if x == 0.0 then some x
  else none

end SchemaGraph.Decimal
