import Mathlib.Data.List.Induction
import SchemaGraph.Identifier.Basic
import SchemaGraph.Identifier.Lemmas

/-! # Numbers in base-32 digits

A digit and its value tell each other, so a list of digits writes one number, and of two lists
of one length the one with the smaller number comes first in the order of their bytes.
-/

namespace SchemaGraph.Identifier

variable {c d : Char} {text : List Char} {m n count : Nat}

/-! ## Digits and their values -/

theorem digitValue?_eq_some_iff : digitValue? c = some n ↔ n < 32 ∧ digitChar n = c := by
  constructor
  · intro value
    rw [digitValue?] at value
    split at value
    · rename_i numeral
      obtain rfl := Option.some_inj.mp value
      have small : c.toNat - 0x30 < 10 := by omega
      have code : 0x30 + (c.toNat - 0x30) = c.toNat := by omega
      exact ⟨by omega, by rw [digitChar, if_pos small, code, Char.ofNat_toNat]⟩
    · split at value
      · rename_i letter
        obtain rfl := Option.some_inj.mp value
        have large : ¬ c.toNat - 0x61 + 10 < 10 := by omega
        have code : 0x61 + (c.toNat - 0x61 + 10 - 10) = c.toNat := by omega
        exact ⟨by omega, by rw [digitChar, if_neg large, code, Char.ofNat_toNat]⟩
      · cases value
  · rintro ⟨small, rfl⟩
    exact digitValue?_digitChar small

theorem digitChar_injective (first : m < 32) (second : n < 32) (same : digitChar m = digitChar n) :
    m = n := by
  rw [← Option.some_inj, ← digitValue?_digitChar first, same, digitValue?_digitChar second]

theorem digitValue?_injective (first : digitValue? c = some n) (second : digitValue? d = some n) :
    c = d :=
  (digitValue?_eq_some_iff.mp first).2.symm.trans (digitValue?_eq_some_iff.mp second).2

/-! ## Lists of digits and their numbers -/

theorem number?_append_singleton (front : List Char) (c : Char) : number? (front ++ [c]) =
    (number? front).bind fun leading => (digitValue? c).map (32 * leading + ·) := by
  rw [number?, numberFrom?_append]
  congr 1
  funext leading
  rw [numberFrom?]
  cases digitValue? c with
  | none => rfl
  | some last => rfl

/-- A list of digits is the notation of its number, in as many digits. -/
theorem number?_eq_some_iff :
    number? text = some n ↔ n < 32 ^ text.length ∧ digits text.length n = text := by
  constructor
  · intro read
    induction text using List.reverseRecOn generalizing n with
    | nil =>
        obtain rfl := Option.some_inj.mp read
        exact ⟨Nat.one_pos, rfl⟩
    | append_singleton front c ih =>
        rw [number?_append_singleton] at read
        obtain ⟨leading, readFront, readLast⟩ := Option.bind_eq_some_iff.mp read
        obtain ⟨last, value, rfl⟩ := Option.map_eq_some_iff.mp readLast
        obtain ⟨below, written⟩ := ih readFront
        obtain ⟨small, isLast⟩ := digitValue?_eq_some_iff.mp value
        have quotient : (32 * leading + last) / 32 = leading := by omega
        have remainder : (32 * leading + last) % 32 = last := by omega
        rw [List.length_append, List.length_singleton]
        refine ⟨?_, ?_⟩
        · rw [Nat.pow_succ]
          omega
        · rw [digits, quotient, remainder, written, isLast]
  · rintro ⟨below, written⟩
    rw [← written, number?_digits, Nat.mod_eq_of_lt below]

theorem digits_eq_digits_iff :
    digits count m = digits count n ↔ m % 32 ^ count = n % 32 ^ count := by
  constructor
  · intro same
    rw [← Option.some_inj, ← number?_digits, same, number?_digits]
  · intro same
    have written := (number?_eq_some_iff.mp (number?_digits count m)).2
    have writtenToo := (number?_eq_some_iff.mp (number?_digits count n)).2
    rw [length_digits] at written writtenToo
    rw [← written, same, writtenToo]

theorem exists_number? (all : ∀ c ∈ text, isDigit c = true) : ∃ n, number? text = some n := by
  induction text using List.reverseRecOn with
  | nil => exact ⟨0, rfl⟩
  | append_singleton front c ih =>
      obtain ⟨leading, read⟩ := ih fun d inside => all d (List.mem_append_left _ inside)
      obtain ⟨last, value⟩ := Option.isSome_iff_exists.mp (all c (by simp))
      exact ⟨32 * leading + last, by rw [number?_append_singleton, read, value]; rfl⟩

theorem number?_append_digits (front behind : Nat) (high low : Nat) :
    number? (digits front high ++ digits behind low) =
      some (high % 32 ^ front * 32 ^ behind + low % 32 ^ behind) := by
  rw [number?, numberFrom?_append, numberFrom?_digits, Option.bind_some, numberFrom?_digits,
    Nat.zero_mul, Nat.zero_add]

/-! ## The order of notations -/

/-- The bytes of a text, by which texts are ordered. -/
def bytes (text : List Char) : List UInt8 := text.flatMap String.utf8EncodeChar

theorem bytes_append (front back : List Char) :
    bytes (front ++ back) = bytes front ++ bytes back :=
  List.flatMap_append

theorem length_bytes_digits (count n : Nat) : (bytes (digits count n)).length = count := by
  have oneByte : ∀ m ∈ List.range 32, (bytes [digitChar m]).length = 1 := by decide +kernel
  induction count generalizing n with
  | zero => rfl
  | succ count ih =>
      have last := oneByte (n % 32) (List.mem_range.mpr (Nat.mod_lt n (by decide)))
      rw [digits, bytes_append, List.length_append, ih, last]

theorem bytes_digitChar_lt (less : m < n) (small : n < 32) :
    bytes [digitChar m] < bytes [digitChar n] := by
  have all : ∀ n ∈ List.range 32, ∀ m ∈ List.range n,
      bytes [digitChar m] < bytes [digitChar n] := by decide +kernel
  exact all n (List.mem_range.mpr small) m (List.mem_range.mpr less)

theorem append_lt_append {one other : List UInt8} (less : one < other)
    (sameLength : one.length = other.length) (rest rest' : List UInt8) :
    one ++ rest < other ++ rest' := by
  rw [← List.lex_lt] at less ⊢
  induction less with
  | nil => cases sameLength
  | rel smaller => exact .rel smaller
  | cons _ ih => exact .cons (ih (Nat.succ.inj sameLength))

/-- The notation of a smaller number comes first: it does where the front digits say so, and
    otherwise these are the same and the last digit is smaller. -/
theorem bytes_digits_lt (less : m < n) (fits : n < 32 ^ count) :
    bytes (digits count m) < bytes (digits count n) := by
  induction count generalizing m n with
  | zero =>
      rw [Nat.pow_zero] at fits
      omega
  | succ count ih =>
      rw [Nat.pow_succ] at fits
      rw [digits, digits, bytes_append, bytes_append]
      rcases Nat.lt_or_ge (m / 32) (n / 32) with below | notBelow
      · have sameLength := (length_bytes_digits count (m / 32)).trans
          (length_bytes_digits count (n / 32)).symm
        exact append_lt_append (ih below (by omega)) sameLength _ _
      · have sameFront : m / 32 = n / 32 := by omega
        have last : bytes [digitChar (m % 32)] < bytes [digitChar (n % 32)] :=
          bytes_digitChar_lt (by omega) (by omega)
        rw [sameFront]
        exact List.append_left_lt last

end SchemaGraph.Identifier
