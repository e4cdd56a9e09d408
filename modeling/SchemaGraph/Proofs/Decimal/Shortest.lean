import Mathlib.Algebra.Order.Field.Power
import Mathlib.Data.Nat.Cast.Order.Field
import Mathlib.Algebra.Order.Floor.Semifield
import Mathlib.Data.Rat.Floor
import Mathlib.Tactic.FieldSimp
import Mathlib.Tactic.Linarith
import Mathlib.Tactic.Positivity
import Mathlib.Tactic.Zify
import SchemaGraph.Decimal.Shortest
import SchemaGraph.Proofs.Decimal.Double

/-! # Shortest decimals tell doubles apart -/

namespace SchemaGraph.Decimal

/-- The number that a decimal stands for. -/
def toRat (d : Decimal) : ℚ := d.digits * 10 ^ d.exponent

theorem toNat_pow_div (base : ℚ) (exponent : Int) :
    base ^ exponent.toNat / base ^ (-exponent).toNat = base ^ exponent := by
  rcases le_total 0 exponent with above | below
  · have nothing : (-exponent).toNat = 0 := by omega
    rw [nothing, pow_zero, div_one, ← zpow_natCast, Int.toNat_of_nonneg above]
  · have nothing : exponent.toNat = 0 := by omega
    rw [nothing, pow_zero, one_div, ← zpow_natCast, Int.toNat_of_nonneg (by omega), zpow_neg,
      inv_inv]

namespace Span

/-- Between the ends of a span, or at them when it is closed. -/
def Between (s : Span) (low high x : ℚ) : Prop :=
  if s.closed then low ≤ x ∧ x ≤ high else low < x ∧ x < high

/-- A number lies in a span. -/
def Holds (s : Span) (x : ℚ) : Prop := s.Between (s.low / s.den) (s.high / s.den) x

theorem holds_iff {s : Span} (positive : 0 < s.den) (n : Nat) :
    s.holds n = true ↔ s.Holds n := by
  have positive : (0 : ℚ) < s.den := by exact_mod_cast positive
  simp only [holds, Holds, Between, div_le_iff₀ positive, le_div_iff₀ positive,
    div_lt_iff₀ positive, lt_div_iff₀ positive]
  split <;> norm_cast <;> simp

theorem holds_of_strict {s : Span} {x : ℚ} (above : s.low / s.den < x)
    (below : x < s.high / s.den) : s.Holds x := by
  rw [Holds, Between]
  split
  · exact ⟨above.le, below.le⟩
  · exact ⟨above, below⟩

theorem onGrid_scaled (s : Span) (exponent : Int) (n : Nat) :
    ((n * 10 ^ (-exponent).toNat : Nat) : ℚ) / ((s.den * 10 ^ exponent.toNat : Nat) : ℚ) =
      n / s.den * 10 ^ (-exponent) := by
  have scale := toNat_pow_div 10 (-exponent)
  rw [neg_neg] at scale
  push_cast
  rw [mul_div_mul_comm, scale]

theorem onGrid_holds_iff (s : Span) (exponent : Int) (x : ℚ) :
    (s.onGrid exponent).Holds x ↔ s.Holds (x * 10 ^ exponent) := by
  have positive : (0 : ℚ) < 10 ^ exponent := by positivity
  have low := s.onGrid_scaled exponent s.low
  have high := s.onGrid_scaled exponent s.high
  simp only [Holds, Between, onGrid, Nat.pow_eq, low, high, zpow_neg, ← div_eq_mul_inv,
    div_le_iff₀ positive, le_div_iff₀ positive, div_lt_iff₀ positive, lt_div_iff₀ positive]

/-! ## Neighbours on a grid -/

theorem holds_of_nearest? {s : Span} {tie : Tie} {n : Nat} (chosen : s.nearest? tie = some n) :
    s.holds n = true := by
  simp only [nearest?] at chosen
  split at chosen
  · rename_i below above
    split at chosen
    · exact Option.some_inj.mp chosen ▸ below
    · exact Option.some_inj.mp chosen ▸ above
    · rw [Option.some_inj] at chosen
      rw [← chosen]
      split
      · exact below
      · exact above
  · rename_i below _
    exact Option.some_inj.mp chosen ▸ below
  · rename_i _ above
    exact Option.some_inj.mp chosen ▸ above
  · cases chosen

/-- A span that is wider than a step of the grid, with its value inside, holds a neighbour of
    the value. -/
theorem isSome_nearest? {s : Span} (tie : Tie) (positive : 0 < s.den)
    (above : (s.low : ℚ) / s.den < s.value / s.den)
    (below : (s.value : ℚ) / s.den < s.high / s.den)
    (wide : (s.low : ℚ) / s.den + 1 < s.high / s.den) : (s.nearest? tie).isSome = true := by
  have floor : ((s.value / s.den : Nat) : ℚ) ≤ s.value / s.den := Nat.cast_div_le
  have next : (s.value : ℚ) / s.den < ((s.value / s.den : Nat) : ℚ) + 1 := by
    rw [← Nat.floor_div_eq_div (K := ℚ)]
    exact Nat.lt_floor_add_one _
  have neighbour : s.holds (s.value / s.den) = true ∨ s.holds (s.value / s.den + 1) = true := by
    rw [holds_iff positive, holds_iff positive]
    rcases lt_or_ge ((s.low : ℚ) / s.den) ((s.value / s.den : Nat) : ℚ) with inside | outside
    · exact Or.inl (holds_of_strict inside (floor.trans_lt below))
    · refine Or.inr (holds_of_strict ?_ ?_)
      · push_cast
        exact above.trans next
      · push_cast
        linarith
  simp only [nearest?]
  split
  · split <;> rfl
  · rfl
  · rfl
  · rename_i notBelow notAbove
    simp [notBelow, notAbove] at neighbour

end Span

/-! ## The leading digit -/

theorem pow_length_toDigits_le {n : Nat} (positive : 0 < n) :
    10 ^ ((Nat.toDigits 10 n).length - 1) ≤ n := by
  rcases Nat.eq_zero_or_pos ((Nat.toDigits 10 n).length - 1) with one | more
  · rw [one, pow_zero]
    exact positive
  · have long : ¬ (Nat.toDigits 10 n).length ≤ (Nat.toDigits 10 n).length - 1 := by omega
    rw [Nat.length_toDigits_le_iff (by decide) more] at long
    exact Nat.le_of_not_lt long

theorem lt_pow_length_toDigits (n : Nat) : n < 10 ^ (Nat.toDigits 10 n).length :=
  (Nat.length_toDigits_le_iff (by decide) Nat.length_toDigits_pos).mp (Nat.le_refl _)

theorem Span.pow_magnitude_le {s : Span} (denominator : 0 < s.den) (value : 0 < s.value) :
    (10 : ℚ) ^ s.magnitude ≤ s.value / s.den := by
  have den : (0 : ℚ) < s.den := by exact_mod_cast denominator
  rw [magnitude]
  split
  · rename_i large
    have whole : 0 < s.value / s.den := Nat.div_pos large denominator
    have digits := pow_length_toDigits_le whole
    have floor : ((s.value / s.den : Nat) : ℚ) ≤ s.value / s.den := Nat.cast_div_le
    have length := Nat.length_toDigits_pos (b := 10) (n := s.value / s.den)
    have exponent : ((Nat.toDigits 10 (s.value / s.den)).length : Int) - 1 =
        (((Nat.toDigits 10 (s.value / s.den)).length - 1 : Nat) : Int) := by omega
    rw [exponent, zpow_natCast]
    refine le_trans ?_ floor
    exact_mod_cast digits
  · have digits := lt_pow_length_toDigits ((s.den - 1) / s.value)
    have short : s.den ≤ 10 ^ (Nat.toDigits 10 ((s.den - 1) / s.value)).length * s.value := by
      have next := Nat.lt_div_mul_add (a := s.den - 1) value
      have scaled := Nat.mul_le_mul_right s.value (Nat.succ_le_of_lt digits)
      rw [Nat.succ_mul] at scaled
      omega
    rw [zpow_neg, zpow_natCast, le_div_iff₀ den, inv_mul_le_iff₀ (by positivity)]
    exact_mod_cast short

/-! ## Spans of doubles -/

/-- How far the span of a double goes below it, in units of its last binary place. -/
def gap (significand : Nat) (exponent : Int) : ℚ :=
  if significand = Double.hiddenBit ∧ exponent ≠ -1074 then 1 / 4 else 1 / 2

section

variable {significand : Nat} {exponent : Int}

theorem ofBinary_den_pos (significand : Nat) (exponent : Int) :
    0 < (Span.ofBinary significand exponent).den := by
  simp only [Span.ofBinary, Nat.pow_eq]
  positivity

theorem ofBinary_quotient (n : Nat) (exponent : Int) :
    ((n * Nat.pow 2 exponent.toNat : Nat) : ℚ) / ((4 * Nat.pow 2 (-exponent).toNat : Nat) : ℚ) =
      n / 4 * 2 ^ exponent := by
  have scale := toNat_pow_div 2 exponent
  push_cast [Nat.pow_eq]
  rw [mul_div_mul_comm, scale]

theorem ofBinary_value (significand : Nat) (exponent : Int) :
    ((Span.ofBinary significand exponent).value : ℚ) / (Span.ofBinary significand exponent).den =
      significand * 2 ^ exponent := by
  refine (ofBinary_quotient (4 * significand) exponent).trans ?_
  push_cast
  ring

theorem ofBinary_high (significand : Nat) (exponent : Int) :
    ((Span.ofBinary significand exponent).high : ℚ) / (Span.ofBinary significand exponent).den =
      (significand + 1 / 2) * 2 ^ exponent := by
  refine (ofBinary_quotient (4 * significand + 2) exponent).trans ?_
  push_cast
  ring

theorem ofBinary_low (positive : 0 < significand) (exponent : Int) :
    ((Span.ofBinary significand exponent).low : ℚ) / (Span.ofBinary significand exponent).den =
      (significand - gap significand exponent) * 2 ^ exponent := by
  refine (ofBinary_quotient _ exponent).trans ?_
  rw [gap]
  split
  · rw [Nat.cast_sub (by omega)]
    push_cast
    ring
  · rw [Nat.cast_sub (by omega)]
    push_cast
    ring

theorem gap_pos (significand : Nat) (exponent : Int) : 0 < gap significand exponent := by
  rw [gap]
  split <;> norm_num

theorem gap_le (significand : Nat) (exponent : Int) : gap significand exponent ≤ 1 / 2 := by
  rw [gap]
  split <;> norm_num

/-- Seventeen digits are enough: on their grid, a double's span is wider than a step. -/
theorem one_lt_width (canonical : Canonical significand exponent) {scale : ℚ}
    (digits : 10 ^ 16 ≤ significand * scale) :
    1 < (gap significand exponent + 1 / 2) * scale := by
  have bounded : (significand : ℚ) ≤ 9007199254740992 := by
    have below := canonical.bounded.le
    exact_mod_cast below
  have scalePos : 0 < scale := by
    by_contra notPos
    have product := mul_nonpos_of_nonneg_of_nonpos (Nat.cast_nonneg (α := ℚ) significand)
      (not_lt.mp notPos)
    linarith
  rw [gap]
  split
  · rename_i narrow
    rw [narrow.1, Double.hiddenBit] at digits
    norm_num at digits ⊢
    linarith
  · have product := mul_le_mul_of_nonneg_right bounded scalePos.le
    norm_num at digits ⊢
    linarith

/-- A double is in its own span after any scaling, and the ends are apart by its width. -/
theorem exists_nearest? (tie : Tie) (positive : 0 < significand)
    (canonical : Canonical significand exponent) :
    let s := Span.ofBinary significand exponent
    ((s.onGrid (s.magnitude - (16 : Nat))).nearest? tie).isSome = true := by
  intro s
  have denPos : 0 < s.den := ofBinary_den_pos significand exponent
  have value := ofBinary_value significand exponent
  have low := ofBinary_low positive exponent
  have high := ofBinary_high significand exponent
  have valuePos : 0 < s.value := by
    simp only [s, Span.ofBinary, Nat.pow_eq]
    positivity
  have leading := Span.pow_magnitude_le denPos valuePos
  generalize grid : s.magnitude - ((16 : Nat) : Int) = g
  have magnitude : s.magnitude = g + 16 := by omega
  have unit : (0 : ℚ) < 10 ^ (-g) := by positivity
  have binary : (0 : ℚ) < 2 ^ exponent := by positivity
  have digits : (10 : ℚ) ^ 16 ≤ significand * (2 ^ exponent * 10 ^ (-g)) := by
    have scaled := mul_le_mul_of_nonneg_right leading unit.le
    rw [value, magnitude, zpow_add₀ (by norm_num), mul_assoc] at scaled
    refine le_trans (le_of_eq ?_) (scaled.trans (le_of_eq (mul_assoc _ _ _)))
    rw [mul_comm ((10 : ℚ) ^ (16 : Int)), ← mul_assoc, ← zpow_add₀ (by norm_num)]
    norm_num
  have wide := one_lt_width canonical digits
  have scalePos : (0 : ℚ) < 2 ^ exponent * 10 ^ (-g) := by positivity
  have gapPos := mul_pos (gap_pos significand exponent) scalePos
  have onLow := (s.onGrid_scaled g s.low).trans (congrArg (· * (10 : ℚ) ^ (-g)) low)
  have onValue := (s.onGrid_scaled g s.value).trans (congrArg (· * (10 : ℚ) ^ (-g)) value)
  have onHigh := (s.onGrid_scaled g s.high).trans (congrArg (· * (10 : ℚ) ^ (-g)) high)
  simp only [mul_assoc] at onLow onValue onHigh
  refine Span.isSome_nearest? tie ?_ ?_ ?_ ?_
  · simp only [Span.onGrid, Nat.pow_eq]
    positivity
  · refine (lt_of_eq_of_lt onLow ?_).trans_eq onValue.symm
    linarith
  · refine (lt_of_eq_of_lt onValue ?_).trans_eq onHigh.symm
    linarith
  · refine (lt_of_eq_of_lt (congrArg (· + 1) onLow) ?_).trans_eq onHigh.symm
    linarith

end

/-! ## The search -/

/-- A search that meets a grid with a neighbour in the span ends inside the span, on that grid
    at the latest. -/
theorem holds_search {s : Span} {tie : Tie} {tries step : Nat} (exponent : Int)
    (inTime : step < tries)
    (meets : ((s.onGrid (exponent - step)).nearest? tie).isSome = true) :
    (s.onGrid (search s tie exponent tries).exponent).holds
        (search s tie exponent tries).digits = true ∧
      exponent - step ≤ (search s tie exponent tries).exponent := by
  induction tries generalizing exponent step with
  | zero => exact absurd inTime (Nat.not_lt_zero _)
  | succ tries ih =>
      rw [search]
      split
      · rename_i chosen
        exact ⟨Span.holds_of_nearest? chosen, Int.sub_le_self exponent (Int.natCast_nonneg step)⟩
      · rename_i missed
        have later : step ≠ 0 := by
          rintro rfl
          simp [missed] at meets
        obtain ⟨before, rfl⟩ := Nat.exists_eq_succ_of_ne_zero later
        have sameGrid : exponent - 1 - (before : Int) = exponent - ((before + 1 : Nat) : Int) := by
          omega
        rw [← sameGrid] at meets ⊢
        exact ih (exponent - 1) (Nat.lt_of_succ_lt_succ inTime) meets

theorem toRat_trim (d : Decimal) (count : Nat) : (trim d count).toRat = d.toRat := by
  induction count generalizing d with
  | zero => rfl
  | succ count ih =>
      rw [trim]
      split
      · rename_i zero
        rw [ih]
        have digits : d.digits = d.digits / 10 * 10 := by omega
        simp only [toRat]
        conv_rhs => rw [digits]
        push_cast
        rw [zpow_add_one₀ (by norm_num)]
        ring
      · rfl

/-- What the search for a double finds lies in its span, and the search goes no finer than to
    seventeen digits. -/
theorem holds_found (tie : Tie) {significand : Nat} {exponent : Int} (positive : 0 < significand)
    (canonical : Canonical significand exponent) :
    let s := Span.ofBinary significand exponent
    let found := search s tie s.magnitude 18
    s.Holds found.toRat ∧ s.magnitude - (16 : Nat) ≤ found.exponent := by
  intro s found
  obtain ⟨inside, early⟩ :=
    holds_search s.magnitude (by decide : 16 < 18) (exists_nearest? tie positive canonical)
  have denPos := ofBinary_den_pos significand exponent
  refine ⟨?_, early⟩
  rw [toRat, ← Span.onGrid_holds_iff, ← Span.holds_iff ?_]
  · exact inside
  · simp only [Span.onGrid, Nat.pow_eq]
    positivity

theorem holds_shortest (tie : Tie) {significand : Nat} {exponent : Int}
    (positive : 0 < significand) (canonical : Canonical significand exponent) :
    (Span.ofBinary significand exponent).Holds (shortest tie significand exponent).toRat := by
  rw [shortest, if_neg positive.ne']
  simp only
  rw [toRat_trim]
  exact (holds_found tie positive canonical).1

/-! ## Spans do not overlap -/

/-- One span ends where another one begins, or before; if both have their ends, it ends before. -/
def EndsBefore (m : Nat) (e : Int) (m' : Nat) (e' : Int) : Prop :=
  ((m : ℚ) + 1 / 2) * 2 ^ e ≤ (m' - gap m' e') * 2 ^ e' ∧
    (m % 2 = 0 → m' % 2 = 0 → ((m : ℚ) + 1 / 2) * 2 ^ e < (m' - gap m' e') * 2 ^ e')

theorem endsBefore_of_less {m m' : Nat} (e : Int) (less : m < m') : EndsBefore m e m' e := by
  have unit : (0 : ℚ) < 2 ^ e := by positivity
  have half := gap_le m' e
  have step (count : Nat) (further : m + count ≤ m') :
      ((m : ℚ) + (count - gap m' e)) * 2 ^ e ≤ (m' - gap m' e) * 2 ^ e := by
    have reach : (m : ℚ) + count ≤ m' := by exact_mod_cast further
    exact mul_le_mul_of_nonneg_right (by linarith) unit.le
  refine ⟨(mul_le_mul_of_nonneg_right ?_ unit.le).trans (step 1 less), fun even even' => ?_⟩
  · push_cast
    linarith
  · refine (mul_lt_mul_of_pos_right ?_ unit).trans_le (step 2 (by omega))
    push_cast
    linarith

/-- The span of a double that is not of the least exponent begins, counted in steps of the next
    finer exponent, where the span of the greatest significand ends, or beyond. -/
theorem le_start_of_not_least {m : Nat} {e : Int} (canonical : Canonical m e)
    (notLeast : e ≠ -1074) : (9007199254740991 + 1 / 2 : ℚ) ≤ (m - gap m e) * 2 := by
  have normal : Double.hiddenBit ≤ m := canonical.normal.resolve_right notLeast
  rw [gap]
  split
  · rename_i narrow
    rw [narrow.1, Double.hiddenBit]
    norm_num
  · rename_i wide
    have different : m ≠ Double.hiddenBit := fun same => wide ⟨same, notLeast⟩
    have above : (4503599627370497 : ℚ) ≤ m := by
      have next : Double.hiddenBit + 1 ≤ m := by omega
      exact_mod_cast next
    linarith

theorem endsBefore_of_finer {m m' : Nat} {e e' : Int} (one : Canonical m e)
    (other : Canonical m' e') (finer : e < e') : EndsBefore m e m' e' := by
  have unit : (0 : ℚ) < 2 ^ e := by positivity
  have notLeast : e' ≠ -1074 := by
    have := one.least
    omega
  have start := le_start_of_not_least other notLeast
  have scale : (2 : ℚ) * 2 ^ e ≤ 2 ^ e' := by
    rw [← zpow_one_add₀ (by norm_num)]
    exact zpow_le_zpow_right₀ (by norm_num) (by omega)
  have positive : (0 : ℚ) ≤ m' - gap m' e' := by linarith
  have reach := mul_le_mul_of_nonneg_left scale positive
  have ends := mul_le_mul_of_nonneg_right start unit.le
  have bounded := one.bounded
  rw [Double.hiddenBit] at bounded
  refine ⟨?_, fun even _ => ?_⟩
  · have most : (m : ℚ) ≤ 9007199254740991 := by
      have lower : m ≤ 9007199254740991 := by omega
      exact_mod_cast lower
    have below := mul_le_mul_of_nonneg_right most unit.le
    linarith
  · have mostEven : (m : ℚ) ≤ 9007199254740990 := by
      have lower : m ≤ 9007199254740990 := by omega
      exact_mod_cast lower
    have below := mul_le_mul_of_nonneg_right mostEven unit.le
    linarith

theorem bounds_of_holds {m : Nat} {e : Int} (positive : 0 < m) {x : ℚ}
    (inside : (Span.ofBinary m e).Holds x) :
    ((m - gap m e) * 2 ^ e ≤ x ∧ x ≤ ((m : ℚ) + 1 / 2) * 2 ^ e) ∧
      (m % 2 ≠ 0 → (m - gap m e) * 2 ^ e < x ∧ x < ((m : ℚ) + 1 / 2) * 2 ^ e) := by
  rw [Span.Holds, ofBinary_low positive, ofBinary_high, Span.Between] at inside
  split at inside
  · rename_i closed
    exact ⟨inside, fun odd => absurd (of_decide_eq_true closed) odd⟩
  · exact ⟨⟨inside.1.le, inside.2.le⟩, fun _ => inside⟩

theorem not_holds_both {m m' : Nat} {e e' : Int} (one : Canonical m e) (other : Canonical m' e')
    (positive : 0 < m) (positive' : 0 < m') (before : e < e' ∨ e = e' ∧ m < m') {x : ℚ}
    (inOne : (Span.ofBinary m e).Holds x) (inOther : (Span.ofBinary m' e').Holds x) : False := by
  obtain ⟨order, strict⟩ : EndsBefore m e m' e' := by
    rcases before with finer | ⟨rfl, less⟩
    · exact endsBefore_of_finer one other finer
    · exact endsBefore_of_less e less
  obtain ⟨⟨_, high⟩, oddOne⟩ := bounds_of_holds positive inOne
  obtain ⟨⟨low, _⟩, oddOther⟩ := bounds_of_holds positive' inOther
  by_cases even : m % 2 = 0
  · by_cases even' : m' % 2 = 0
    · linarith [strict even even']
    · linarith [(oddOther even').1]
  · linarith [(oddOne even).2]

theorem canonical_unique {m m' : Nat} {e e' : Int} (one : Canonical m e)
    (other : Canonical m' e') (positive : 0 < m) (positive' : 0 < m') {x : ℚ}
    (inOne : (Span.ofBinary m e).Holds x) (inOther : (Span.ofBinary m' e').Holds x) :
    m = m' ∧ e = e' := by
  rcases lt_trichotomy e e' with coarser | rfl | finer
  · exact (not_holds_both one other positive positive' (Or.inl coarser) inOne inOther).elim
  · rcases lt_trichotomy m m' with less | rfl | greater
    · exact (not_holds_both one other positive positive' (Or.inr ⟨rfl, less⟩) inOne inOther).elim
    · exact ⟨rfl, rfl⟩
    · exact (not_holds_both other one positive' positive (Or.inr ⟨rfl, greater⟩) inOther
        inOne).elim
  · exact (not_holds_both other one positive' positive (Or.inl finer) inOther inOne).elim

theorem toRat_shortest_eq_zero_iff (tie : Tie) {m : Nat} {e : Int} (canonical : Canonical m e) :
    (shortest tie m e).toRat = 0 ↔ m = 0 := by
  constructor
  · intro zero
    by_contra nonzero
    have positive := Nat.pos_of_ne_zero nonzero
    obtain ⟨⟨low, _⟩, _⟩ := bounds_of_holds positive (holds_shortest tie positive canonical)
    have one : (1 : ℚ) ≤ m := by exact_mod_cast positive
    have half := gap_le m e
    have start : (0 : ℚ) < (m - gap m e) * 2 ^ e := mul_pos (by linarith) (by positivity)
    linarith
  · rintro rfl
    simp [shortest, toRat]

/-- The shortest decimals of two doubles, perhaps with other ties, are the same number only if
    the doubles are the same. -/
theorem shortest_unique {tie tie' : Tie} {m m' : Nat} {e e' : Int} (one : Canonical m e)
    (other : Canonical m' e')
    (same : (shortest tie m e).toRat = (shortest tie' m' e').toRat) : m = m' ∧ e = e' := by
  have zero := toRat_shortest_eq_zero_iff tie one
  have zero' := toRat_shortest_eq_zero_iff tie' other
  rcases Nat.eq_zero_or_pos m with rfl | positive
  · have isZero : m' = 0 := zero'.mp (same.symm.trans (zero.mpr rfl))
    subst isZero
    refine ⟨rfl, (one.normal.resolve_left ?_).trans (other.normal.resolve_left ?_).symm⟩ <;>
      decide
  · have positive' : 0 < m' := Nat.pos_of_ne_zero fun isZero =>
      positive.ne' (zero.mp (same.trans (zero'.mpr isZero)))
    have inOther := holds_shortest tie' positive' other
    rw [← same] at inOther
    exact canonical_unique one other positive positive' (holds_shortest tie positive one) inOther

end SchemaGraph.Decimal
