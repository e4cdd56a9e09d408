import Mathlib.Algebra.Group.Nat.Defs
import SchemaGraph.Identifier.Digit

/-! # Reading back what was written

Writing a number in a fixed count of digits and reading it back gives the number without
its higher digits.
-/

namespace SchemaGraph.Identifier

theorem numberFrom?_digits (leading count n : Nat) :
    numberFrom? leading (digits count n) = some (leading * 32 ^ count + n % 32 ^ count) := by
  induction count generalizing n with
  | zero => simp [digits, numberFrom?, Nat.mod_one]
  | succ count ih =>
      have last := digitValue?_digitChar (Nat.mod_lt n (by decide : 0 < 32))
      have parts : n % 32 ^ (count + 1) = n % 32 + 32 * (n / 32 % 32 ^ count) := by
        rw [Nat.pow_succ, Nat.mul_comm, Nat.mod_mul]
      have power : leading * 32 ^ (count + 1) = 32 * (leading * 32 ^ count) := by
        rw [Nat.pow_succ, ← Nat.mul_assoc, Nat.mul_comm]
      simp only [digits, numberFrom?_append, ih, Option.bind_some, numberFrom?, last]
      rw [parts, power]
      congr 1
      omega

theorem number?_digits (count n : Nat) : number? (digits count n) = some (n % 32 ^ count) := by
  simp [number?, numberFrom?_digits]

end SchemaGraph.Identifier
