/-! # Base-32 digits

Identifiers are written in the digits `0` to `9` and `a` to `v`, most significant first.
-/

namespace SchemaGraph.Identifier

/-- The character of a digit below 32. -/
def digitChar (n : Nat) : Char :=
  if n < 10 then Char.ofNat (0x30 + n) else Char.ofNat (0x61 + (n - 10))

/-- The value of a digit; upper case is no digit. -/
def digitValue? (c : Char) : Option Nat :=
  if 0x30 ≤ c.toNat ∧ c.toNat ≤ 0x39 then some (c.toNat - 0x30)
  else if 0x61 ≤ c.toNat ∧ c.toNat ≤ 0x76 then some (c.toNat - 0x61 + 10)
  else none

def isDigit (c : Char) : Bool := (digitValue? c).isSome

/-- The last `count` base-32 digits of a number, most significant first. -/
def digits : Nat → Nat → List Char
  | 0, _ => []
  | count + 1, n => digits count (n / 32) ++ [digitChar (n % 32)]

/-- Continue reading a number whose leading digits made `leading`. -/
def numberFrom? (leading : Nat) : List Char → Option Nat
  | [] => some leading
  | c :: rest =>
      match digitValue? c with
      | some n => numberFrom? (32 * leading + n) rest
      | none => none

/-- The number that a list of digits stands for. -/
def number? (text : List Char) : Option Nat := numberFrom? 0 text

theorem digitValue?_digitChar {n : Nat} (h : n < 32) : digitValue? (digitChar n) = some n := by
  have all : ∀ m ∈ List.range 32, digitValue? (digitChar m) = some m := by decide
  exact all n (List.mem_range.mpr h)

@[simp] theorem length_digits (count n : Nat) : (digits count n).length = count := by
  induction count generalizing n with
  | zero => rfl
  | succ count ih => simp [digits, ih]

theorem numberFrom?_append (leading : Nat) (front back : List Char) :
    numberFrom? leading (front ++ back) =
      (numberFrom? leading front).bind fun n => numberFrom? n back := by
  induction front generalizing leading with
  | nil => rfl
  | cons c rest ih =>
      simp only [List.cons_append, numberFrom?]
      cases digitValue? c with
      | none => rfl
      | some n => exact ih _

end SchemaGraph.Identifier
