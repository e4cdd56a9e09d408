import SchemaGraph.Decimal.Digits
import SchemaGraph.Proofs.Decimal.Layout

/-! # Runs of digits are read as numbers

Wherever a reader looks for a number, the digits up to the first other character make it up.
-/

namespace SchemaGraph.Decimal

variable {text rest : List Char}

theorem digitValue?_of_isDigit {c : Char} (digit : c.isDigit = true) :
    digitValue? 10 c = some (c.toNat - '0'.toNat) := by
  have bounds : '0' ≤ c ∧ c ≤ '9' := by
    simpa [Char.isDigit, Char.le_def] using digit
  have small : c.toNat - '0'.toNat < 10 := by
    have below : c.toNat ≤ '9'.toNat := bounds.2
    have nine : '9'.toNat = 57 := rfl
    have zero : '0'.toNat = 48 := rfl
    omega
  unfold digitValue?
  rw [if_pos bounds]
  exact Option.filter_some_pos (by simpa using small)

theorem naturalFrom?_digits (digits : Digits text) (leading : Nat) :
    naturalFrom? 10 leading text = some (Nat.ofDigitChars 10 text leading) := by
  induction text generalizing leading with
  | nil => rfl
  | cons c text ih =>
      obtain ⟨digit, later⟩ := List.forall_mem_cons.mp digits
      unfold naturalFrom?
      rw [digitValue?_of_isDigit digit, Nat.ofDigitChars_cons]
      exact ih later _

theorem natural?_digits (digits : Digits text) (some : text ≠ []) :
    natural? 10 text = Option.some (Nat.ofDigitChars 10 text 0) := by
  unfold natural?
  rw [if_neg (by simpa using some), naturalFrom?_digits digits]

/-- No digit stands at the front. -/
def NoDigit (rest : List Char) : Prop := ∀ c ∈ rest.head?, c.isDigit = false

theorem takeWhile_digits (digits : Digits text) (stops : NoDigit rest) :
    (text ++ rest).takeWhile Char.isDigit = text := by
  have none : rest.takeWhile Char.isDigit = [] := by
    cases rest with
    | nil => rfl
    | cons c rest => exact List.takeWhile_cons_of_neg (by simp [stops c rfl])
  rw [List.takeWhile_append_of_pos digits, none, List.append_nil]

theorem dropWhile_digits (digits : Digits text) (stops : NoDigit rest) :
    (text ++ rest).dropWhile Char.isDigit = rest := by
  rw [List.dropWhile_append_of_pos digits]
  cases rest with
  | nil => rfl
  | cons c rest => exact List.dropWhile_cons_of_neg (by simp [stops c rfl])

/-- Only the number zero begins with the digit zero. -/
theorem tail_of_toDigits {n : Nat} (zero : Nat.toDigits 10 n = '0' :: rest) : rest = [] := by
  induction n using Nat.strongRecOn generalizing rest with
  | ind n ih =>
      by_cases small : n < 10
      · rw [Nat.toDigits_of_lt_base small] at zero
        exact (List.cons.inj zero).2.symm
      · rw [Nat.toDigits_of_base_le (by decide) (Nat.le_of_not_lt small)] at zero
        obtain ⟨first, more, front⟩ :=
          List.exists_cons_of_ne_nil (Nat.toDigits_ne_nil (n := n / 10) (b := 10))
        rw [front, List.cons_append] at zero
        obtain ⟨rfl, _⟩ := List.cons.inj zero
        have alone := ih (n / 10) (by omega) front
        subst alone
        have value := Nat.ofDigitChars_ten_toDigits (n := n / 10)
        rw [front] at value
        have nothing : Nat.ofDigitChars 10 ['0'] 0 = 0 := rfl
        omega

end SchemaGraph.Decimal
