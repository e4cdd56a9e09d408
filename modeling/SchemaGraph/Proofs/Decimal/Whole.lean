import SchemaGraph.Proofs.Decimal.Layout

/-! # Doubles shown as integers

The digits of a shortest decimal do not end in zero. So where a layout does without a needless
point, a double whose shortest decimal is an integer is written as that integer is.
-/

namespace SchemaGraph.Decimal

variable {significand : Nat} {exponent : Int}

/-! ## The last digit -/

theorem Span.lt_pow_magnitude {s : Span} (denominator : 0 < s.den) (value : 0 < s.value) :
    (s.value : ℚ) / s.den < 10 ^ (s.magnitude + 1) := by
  have den : (0 : ℚ) < s.den := by exact_mod_cast denominator
  rw [magnitude]
  split
  · rename_i large
    have digits := lt_pow_length_toDigits (s.value / s.den)
    rw [sub_add_cancel, zpow_natCast, div_lt_iff₀ den]
    exact_mod_cast (Nat.div_lt_iff_lt_mul denominator).mp digits
  · rename_i small
    have whole : 0 < (s.den - 1) / s.value := Nat.div_pos (by omega) value
    have digits := pow_length_toDigits_le whole
    have length := Nat.length_toDigits_pos (b := 10) (n := (s.den - 1) / s.value)
    have below : 10 ^ ((Nat.toDigits 10 ((s.den - 1) / s.value)).length - 1) * s.value < s.den := by
      have scaled := (Nat.le_div_iff_mul_le value).mp digits
      omega
    have magnitude : -((Nat.toDigits 10 ((s.den - 1) / s.value)).length : Int) + 1 =
        -(((Nat.toDigits 10 ((s.den - 1) / s.value)).length - 1 : Nat) : Int) := by omega
    rw [magnitude, zpow_neg, zpow_natCast, div_lt_iff₀ den, ← div_eq_inv_mul,
      lt_div_iff₀ (by positivity), mul_comm]
    exact_mod_cast below

theorem digits_search_lt (tie : Tie) (positive : 0 < significand)
    (canonical : Canonical significand exponent) :
    let s := Span.ofBinary significand exponent
    (search s tie s.magnitude 18).digits < 10 ^ 18 := by
  intro s
  obtain ⟨held, early⟩ := holds_found tie positive canonical
  obtain ⟨⟨_, below⟩, _⟩ := bounds_of_holds positive held
  generalize search s tie s.magnitude 18 = d at below early ⊢
  have valuePos : 0 < s.value := by
    simp only [s, Span.ofBinary, Nat.pow_eq]
    positivity
  have leading := Span.lt_pow_magnitude (ofBinary_den_pos significand exponent) valuePos
  rw [ofBinary_value] at leading
  have one : (1 : ℚ) ≤ significand := by exact_mod_cast positive
  have binary : (0 : ℚ) < 2 ^ exponent := by positivity
  have unit : (0 : ℚ) < 10 ^ (s.magnitude - (16 : Nat)) := by positivity
  have finer : (10 : ℚ) ^ (s.magnitude - (16 : Nat)) ≤ 10 ^ d.exponent :=
    zpow_le_zpow_right₀ (by norm_num) early
  have leadingUnits : (10 : ℚ) ^ (s.magnitude + 1) =
      10 ^ 17 * 10 ^ (s.magnitude - (16 : Nat)) := by
    rw [← zpow_natCast, ← zpow_add₀ (by norm_num)]
    congr 1
    omega
  have bound : d.digits * (10 : ℚ) ^ (s.magnitude - (16 : Nat)) <
      2 * 10 ^ 17 * 10 ^ (s.magnitude - (16 : Nat)) :=
    calc d.digits * (10 : ℚ) ^ (s.magnitude - (16 : Nat))
      _ ≤ d.digits * 10 ^ d.exponent := mul_le_mul_of_nonneg_left finer (Nat.cast_nonneg _)
      _ ≤ (significand + 1 / 2) * 2 ^ exponent := below
      _ ≤ 2 * (significand * 2 ^ exponent) := by nlinarith only [one, binary]
      _ < 2 * 10 ^ (s.magnitude + 1) := mul_lt_mul_of_pos_left leading (by norm_num)
      _ = 2 * 10 ^ 17 * 10 ^ (s.magnitude - (16 : Nat)) := by rw [leadingUnits, mul_assoc]
  have few : (d.digits : ℚ) < 2 * 10 ^ 17 := lt_of_mul_lt_mul_right bound unit.le
  have few : d.digits < 2 * 10 ^ 17 := by exact_mod_cast few
  omega

theorem digits_trim {d : Decimal} {count : Nat} (positive : 0 < d.digits)
    (few : d.digits < 10 ^ count) : (trim d count).digits % 10 ≠ 0 := by
  induction count generalizing d with
  | zero => omega
  | succ count ih =>
      rw [trim]
      split
      · exact ih (by simp only; omega) (by simp only; omega)
      · assumption

theorem digits_shortest (tie : Tie) (positive : 0 < significand)
    (canonical : Canonical significand exponent) :
    (shortest tie significand exponent).digits % 10 ≠ 0 := by
  have few := digits_search_lt tie positive canonical
  have nonzero := (toRat_shortest_eq_zero_iff tie canonical).not.mpr positive.ne'
  rw [shortest, if_neg positive.ne'] at nonzero ⊢
  refine digits_trim (Nat.pos_of_ne_zero fun zero => nonzero ?_) few
  rw [toRat_trim, toRat, zero]
  simp

/-! ## Whole numbers -/

theorem exponent_nonneg_of_whole {d : Decimal} {n : Nat} (trimmed : d.digits % 10 ≠ 0)
    (whole : d.toRat = n) : 0 ≤ d.exponent := by
  by_contra fraction
  obtain ⟨places, isPlaces⟩ : ∃ places : Nat, d.exponent = -((places + 1 : Nat) : Int) :=
    ⟨(-d.exponent).toNat - 1, by omega⟩
  rw [toRat, isPlaces, zpow_neg, zpow_natCast, ← div_eq_mul_inv,
    div_eq_iff (by positivity)] at whole
  have digits : d.digits = n * 10 ^ (places + 1) := by exact_mod_cast whole
  rw [digits, pow_succ, ← mul_assoc] at trimmed
  exact trimmed (Nat.mul_mod_left _ _)

theorem toDigits_scaled {n : Nat} (positive : 0 < n) (zeros : Nat) :
    Nat.toDigits 10 (n * 10 ^ zeros) = Nat.toDigits 10 n ++ List.replicate zeros '0' := by
  induction zeros with
  | zero => simp
  | succ zeros ih =>
      have scaled : n * 10 ^ (zeros + 1) = 10 * (n * 10 ^ zeros) + 0 := by ring
      rw [List.replicate_succ', ← List.append_assoc, ← ih, scaled,
        ← Nat.toDigits_append_toDigits (by decide) (by positivity) (by decide), Nat.toDigits_zero]

theorem positionalText_whole {d : Decimal} {n : Nat} (positive : 0 < d.digits)
    (trimmed : d.digits % 10 ≠ 0) (whole : d.toRat = n) :
    (d.positionalText false).toList = Nat.toDigits 10 n := by
  have above := exponent_nonneg_of_whole trimmed whole
  have value : n = d.digits * 10 ^ d.exponent.toNat := by
    rw [toRat, pow_of_nonneg above] at whole
    exact_mod_cast whole.symm
  rw [value, toDigits_scaled positive, positionalText, if_pos above]
  simp

theorem toList_positionalText_shortest (tie : Tie) (canonical : Canonical significand exponent)
    {n : Nat} (whole : (shortest tie significand exponent).toRat = n) :
    ((shortest tie significand exponent).positionalText false).toList = Nat.toDigits 10 n := by
  rcases Nat.eq_zero_or_pos significand with rfl | positive
  · have zero : n = 0 := by
      rw [(toRat_shortest_eq_zero_iff tie canonical).mpr rfl] at whole
      exact_mod_cast whole.symm
    rw [zero, shortest, if_pos rfl]
    decide
  · have trimmed := digits_shortest tie positive canonical
    exact positionalText_whole (by omega) trimmed whole

/-- In a layout that keeps all digits in their places and no point without need, a double is
    written as the integer is that its shortest decimal is. -/
theorem Layout.write_eq_toString_iff (layout : Layout) (inPlace : layout.positional = none)
    (unpointed : layout.pointed = false) {x : Float} {negative : Bool}
    (number : Double.ofFloat x = .finite negative significand exponent) (n : Int) :
    layout.write x = toString n ↔ negative = decide (n < 0) ∧
      (shortest layout.tie significand exponent).toRat = n.natAbs := by
  have shown := (layout.shows_body (shortest layout.tie significand exponent)).1
  rw [← String.toList_inj, layout.toList_write number, toList_integer]
  constructor
  · intro same
    obtain ⟨sameSign, sameText⟩ := shown.sign_append_inj (shows_toDigits n.natAbs) same
    rw [sameText] at shown
    exact ⟨sameSign, shown.reads.symm.trans (shows_toDigits n.natAbs).reads⟩
  · rintro ⟨rfl, whole⟩
    have body : layout.body (shortest layout.tie significand exponent) =
        (shortest layout.tie significand exponent).positionalText false := by
      rw [Layout.body, inPlace, unpointed, if_pos rfl]
    rw [body]
    congr 1
    exact toList_positionalText_shortest layout.tie (Double.canonical_ofFloat number) whole

end SchemaGraph.Decimal
