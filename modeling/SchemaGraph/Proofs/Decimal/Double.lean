import Mathlib.Algebra.Group.Nat.Defs
import SchemaGraph.Decimal.Double

/-! # Doubles and their bits

The exact form of a double says which double it is.
-/

namespace SchemaGraph.Decimal

/-- A significand and an exponent that a finite double has. -/
structure Canonical (significand : Nat) (exponent : Int) : Prop where
  bounded : significand < 2 * Double.hiddenBit
  least : -1074 ≤ exponent
  normal : Double.hiddenBit ≤ significand ∨ exponent = -1074

namespace Double

/-- Whether a double is a finite number. -/
def isFinite : Double → Bool
  | .finite .. => true
  | _ => false

theorem isFinite_iff {d : Double} : d.isFinite = true ↔
    ∃ negative significand exponent, d = .finite negative significand exponent := by
  cases d <;> simp [isFinite]

/-- The bits of a double other than no number. -/
def bits : Double → Nat
  | .nan => 0
  | .infinite negative => (if negative then 0x8000000000000000 else 0) + 0x7ff * hiddenBit
  | .finite negative significand exponent =>
      (if negative then 0x8000000000000000 else 0) +
        if significand < hiddenBit then significand
        else (exponent + 1074).toNat * hiddenBit + significand

theorem bits_ofBits {n : Nat} (word : n < 2 ^ 64) (number : ofBits n ≠ .nan) :
    bits (ofBits n) = n := by
  have sign : (if n / 0x8000000000000000 % 2 = 1 then 0x8000000000000000 else 0) +
      n / hiddenBit % 0x800 * hiddenBit + n % hiddenBit = n := by
    simp only [hiddenBit]
    split <;> omega
  simp only [ofBits] at number ⊢
  split
  · rename_i top
    rw [if_pos top] at number
    split
    · rename_i zero
      rw [top, zero, Nat.add_zero] at sign
      simpa only [bits, decide_eq_true_eq] using sign
    · rename_i nonzero
      exact absurd (if_neg nonzero) number
  · split
    · rename_i least
      have small : n % hiddenBit < hiddenBit := Nat.mod_lt _ (by decide)
      rw [least] at sign
      simpa only [bits, decide_eq_true_eq, if_pos small, Nat.zero_mul, Nat.add_zero] using sign
    · rename_i least
      have large : ¬ hiddenBit + n % hiddenBit < hiddenBit := by omega
      have shifted : (((n / hiddenBit % 0x800 : Nat) : Int) - 1075 + 1074).toNat + 1 =
          n / hiddenBit % 0x800 := by omega
      simp only [bits, decide_eq_true_eq, if_neg large]
      rw [← shifted, Nat.succ_mul] at sign
      omega

theorem canonical_ofBits {n significand : Nat} {negative : Bool} {exponent : Int}
    (number : ofBits n = .finite negative significand exponent) :
    Canonical significand exponent := by
  have fraction : n % hiddenBit < hiddenBit := Nat.mod_lt _ (by decide)
  simp only [ofBits] at number
  split at number
  · split at number <;> cases number
  · split at number
    · cases number
      exact ⟨by omega, by decide, Or.inr rfl⟩
    · cases number
      exact ⟨by omega, by omega, Or.inl (by omega)⟩

theorem canonical_ofFloat {x : Float} {significand : Nat} {negative : Bool} {exponent : Int}
    (number : ofFloat x = .finite negative significand exponent) :
    Canonical significand exponent :=
  canonical_ofBits number

open Float.Model in
/-- There is one double that is no number. -/
theorem toBits_of_nan {x : Float} (nan : ofFloat x = .nan) :
    x.toBits.toBitVec = UnpackedFloat.packedNaN Format.binary64 := by
  have top : x.toBits.toNat / hiddenBit % 0x800 = 0x7ff ∧ x.toBits.toNat % hiddenBit ≠ 0 := by
    simp only [ofFloat, ofBits] at nan
    split at nan
    · rename_i top
      split at nan
      · cases nan
      · rename_i nonzero
        exact ⟨top, nonzero⟩
    · split at nan <;> cases nan
  refine x.toModel.valid.eq_packedNaN (BitVec.eq_of_toNat_eq ?_) fun zero => top.2 ?_
  · have exponent : x.toModel.toBits.toNat / 2 ^ 52 % 2048 = 2047 := top.1
    simpa [UnpackedFloat.unpackExponent, Nat.shiftRight_eq_div_pow] using exponent
  · have fraction : x.toModel.toBits.toNat % 2 ^ 52 = 0 := by
      simpa [UnpackedFloat.unpackMantissa] using congrArg BitVec.toNat zero
    exact fraction

theorem eq_of_toBits {x y : Float} (same : x.toBits = y.toBits) : x = y := by
  obtain ⟨⟨bits, valid⟩⟩ := x
  obtain ⟨⟨bits', valid'⟩⟩ := y
  obtain rfl : bits = bits' := same
  rfl

theorem ofFloat_injective {x y : Float} (same : ofFloat x = ofFloat y) : x = y := by
  refine eq_of_toBits ?_
  by_cases nan : ofFloat x = .nan
  · rw [← UInt64.toBitVec_inj, toBits_of_nan nan, toBits_of_nan (same.symm.trans nan)]
  · have nan' : ofFloat y ≠ .nan := fun nanToo => nan (same.trans nanToo)
    rw [← UInt64.toNat_inj, ← bits_ofBits x.toBits.toNat_lt nan,
      ← bits_ofBits y.toBits.toNat_lt nan']
    exact congrArg bits same

end Double

end SchemaGraph.Decimal
