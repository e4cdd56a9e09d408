/-! # Runs of digits

Whole numbers written in a base up to sixteen.
-/

namespace SchemaGraph.Decimal

/-- The value of a digit in the given base, in either case. -/
def digitValue? (base : Nat) (c : Char) : Option Nat :=
  let value :=
    if '0' ≤ c ∧ c ≤ '9' then some (c.toNat - '0'.toNat)
    else if 'a' ≤ c ∧ c ≤ 'f' then some (c.toNat - 'a'.toNat + 10)
    else if 'A' ≤ c ∧ c ≤ 'F' then some (c.toNat - 'A'.toNat + 10)
    else none
  value.filter (· < base)

/-- Continue a number whose leading digits made `leading`. -/
def naturalFrom? (base leading : Nat) : List Char → Option Nat
  | [] => some leading
  | c :: rest =>
      match digitValue? base c with
      | some n => naturalFrom? base (base * leading + n) rest
      | none => none

/-- The number that a run of at least one digit stands for. -/
def natural? (base : Nat) (text : List Char) : Option Nat :=
  if text.isEmpty then none else naturalFrom? base 0 text

end SchemaGraph.Decimal
