import SchemaGraph.Decimal.Layout
import SchemaGraph.Proofs.Decimal.Shortest

/-! # Written decimals tell doubles apart

However a layout places the point and the exponent, the number can be read off the text. So
two doubles with the same digits are the same double.
-/

namespace SchemaGraph.Decimal

/-! ## Reading -/

/-- What stands before a mark and what stands behind it; without the mark, nothing does. -/
def cut (mark : Char) : List Char → List Char × List Char
  | [] => ([], [])
  | c :: rest => if c = mark then ([], rest) else (c :: (cut mark rest).1, (cut mark rest).2)

theorem cut_of_absent {mark : Char} {text : List Char} (absent : mark ∉ text) :
    cut mark text = (text, []) := by
  induction text with
  | nil => rfl
  | cons c rest ih =>
      have different : mark ≠ c := List.ne_of_not_mem_cons absent
      have absentLater := List.not_mem_of_not_mem_cons absent
      rw [cut, if_neg (Ne.symm different), ih absentLater]

theorem cut_append {mark : Char} {text : List Char} (absent : mark ∉ text)
    (behind : List Char) : cut mark (text ++ mark :: behind) = (text, behind) := by
  induction text with
  | nil => rw [List.nil_append, cut, if_pos rfl]
  | cons c rest ih =>
      have different : mark ≠ c := List.ne_of_not_mem_cons absent
      have absentLater := List.not_mem_of_not_mem_cons absent
      rw [List.cons_append, cut, if_neg (Ne.symm different), ih absentLater]

/-- The number that digits stand for, with or without a point between them. -/
def mantissa (text : List Char) : ℚ :=
  let (whole, places) := cut '.' text
  Nat.ofDigitChars 10 (whole ++ places) 0 / 10 ^ places.length

/-- The number that digits behind a sign stand for. -/
def signed : List Char → Int
  | '-' :: digits => -(Nat.ofDigitChars 10 digits 0)
  | digits => Nat.ofDigitChars 10 (digits.drop 1) 0

/-- The number that a decimal text without sign stands for, with or without an exponent. -/
def numeral (text : List Char) : ℚ :=
  let (front, exponent) := cut 'e' text
  mantissa front * 10 ^ signed exponent

/-- A list of digits. -/
def Digits (text : List Char) : Prop := ∀ c ∈ text, c.isDigit = true

theorem digits_toDigits (n : Nat) : Digits (Nat.toDigits 10 n) := fun _ inside =>
  Nat.isDigit_of_mem_toDigits (by decide) (by decide) inside

theorem digits_zeros (count : Nat) : Digits (List.replicate count '0') := fun _ inside =>
  (List.mem_replicate.mp inside).2 ▸ by decide

theorem Digits.append {text more : List Char} (digits : Digits text) (digitsToo : Digits more) :
    Digits (text ++ more) := fun c inside =>
  (List.mem_append.mp inside).elim (digits c) (digitsToo c)

theorem Digits.absent {text : List Char} (digits : Digits text) {mark : Char}
    (noDigit : mark.isDigit = false) : mark ∉ text := by
  intro inside
  rw [digits mark inside] at noDigit
  cases noDigit

theorem mantissa_whole {digits : List Char} (only : Digits digits) :
    mantissa digits = Nat.ofDigitChars 10 digits 0 := by
  rw [mantissa, cut_of_absent (only.absent (by decide))]
  simp

theorem mantissa_point {whole : List Char} (only : Digits whole) (places : List Char) :
    mantissa (whole ++ '.' :: places) =
      Nat.ofDigitChars 10 (whole ++ places) 0 / 10 ^ places.length := by
  rw [mantissa, cut_append (only.absent (by decide))]

theorem numeral_plain {text : List Char} (plain : 'e' ∉ text) : numeral text = mantissa text := by
  rw [numeral, cut_of_absent plain]
  simp [signed]

theorem numeral_scientific {text : List Char} (plain : 'e' ∉ text) (exponent : List Char) :
    numeral (text ++ 'e' :: exponent) = mantissa text * 10 ^ signed exponent := by
  rw [numeral, cut_append plain]

theorem numeral_whole {digits : List Char} (only : Digits digits) :
    numeral digits = Nat.ofDigitChars 10 digits 0 := by
  rw [numeral_plain (only.absent (by decide)), mantissa_whole only]

theorem numeral_point {whole places : List Char} (only : Digits whole) (onlyToo : Digits places) :
    numeral (whole ++ '.' :: places) =
      Nat.ofDigitChars 10 (whole ++ places) 0 / 10 ^ places.length := by
  have plain : 'e' ∉ whole ++ '.' :: places := by
    have before : 'e' ∉ whole := only.absent (by decide)
    have behind : 'e' ∉ places := onlyToo.absent (by decide)
    simp [before, behind]
  rw [numeral_plain plain, mantissa_point only]

/-! ## What is written -/

/-- The characters that numbers are written with. -/
def OfNumber (c : Char) : Prop := c.isDigit = true ∨ c ∈ ['.', 'e', '+', '-']

instance : DecidablePred OfNumber := fun _ => inferInstanceAs (Decidable (_ ∨ _))

/-- A text without sign that shows a number: it begins with a digit, goes on with what numbers
    are written with, and reads as the number. -/
structure Shows (text : List Char) (value : ℚ) : Prop where
  first : ∃ c rest, text = c :: rest ∧ c.isDigit = true
  only : ∀ c ∈ text, OfNumber c
  reads : numeral text = value

/-- The sign of a number. -/
def sign (negative : Bool) : List Char := if negative then ['-'] else []

theorem Shows.sign_append_inj {text text' : List Char} {value value' : ℚ}
    (shows : Shows text value) (showsToo : Shows text' value') {negative negative' : Bool}
    (same : sign negative ++ text = sign negative' ++ text') :
    negative = negative' ∧ text = text' := by
  obtain ⟨c, rest, rfl, digit⟩ := shows.first
  obtain ⟨c', rest', rfl, digit'⟩ := showsToo.first
  have notSign : '-' ≠ c ∧ '-' ≠ c' := by
    constructor
    · rintro rfl
      cases digit
    · rintro rfl
      cases digit'
  cases negative <;> cases negative' <;> simp_all [sign]

/-- A text that is made of what numbers are written with. -/
structure Numeral (text : String) : Prop where
  some : text.toList ≠ []
  only : ∀ c ∈ text.toList, OfNumber c

instance (text : String) : Decidable (Numeral text) :=
  decidable_of_iff (text.toList ≠ [] ∧ text.toList.all (fun c => decide (OfNumber c)) = true) <| by
    rw [List.all_eq_true]
    simp only [decide_eq_true_eq]
    exact ⟨fun h => ⟨h.1, h.2⟩, fun h => ⟨h.some, h.only⟩⟩

theorem Shows.numeral {text : List Char} {value : ℚ} (shows : Shows text value)
    {negative : Bool} {whole : String} (written : whole.toList = sign negative ++ text) :
    Numeral whole := by
  refine ⟨?_, fun c inside => ?_⟩
  · obtain ⟨c, rest, rfl, _⟩ := shows.first
    simp [written]
  rw [written] at inside
  rcases List.mem_append.mp inside with isSign | later
  · have isMinus : c = '-' := by cases negative <;> simp_all [sign]
    exact Or.inr (by simp [isMinus])
  · exact shows.only c later

theorem Digits.shows {digits : List Char} (only : Digits digits) (some : digits ≠ []) :
    Shows digits (Nat.ofDigitChars 10 digits 0) where
  first := by
    obtain ⟨c, rest, rfl⟩ := List.exists_cons_of_ne_nil some
    exact ⟨c, rest, rfl, only c List.mem_cons_self⟩
  only c inside := Or.inl (only c inside)
  reads := numeral_whole only

theorem shows_point {whole places : List Char} (only : Digits whole) (some : whole ≠ [])
    (onlyToo : Digits places) : Shows (whole ++ '.' :: places)
      (Nat.ofDigitChars 10 (whole ++ places) 0 / 10 ^ places.length) where
  first := by
    obtain ⟨c, rest, rfl⟩ := List.exists_cons_of_ne_nil some
    exact ⟨c, rest ++ '.' :: places, rfl, only c List.mem_cons_self⟩
  only c inside := by
    rcases List.mem_append.mp inside with before | behind
    · exact Or.inl (only c before)
    · rcases List.mem_cons.mp behind with rfl | later
      · exact Or.inr (by simp)
      · exact Or.inl (onlyToo c later)
  reads := numeral_point only onlyToo

theorem pow_of_nonneg {exponent : Int} (above : 0 ≤ exponent) :
    (10 : ℚ) ^ exponent = 10 ^ exponent.toNat := by
  rw [← zpow_natCast, Int.toNat_of_nonneg above]

theorem pow_of_neg {exponent : Int} (below : ¬ 0 ≤ exponent) :
    (10 : ℚ) ^ exponent = 1 / 10 ^ (-exponent).toNat := by
  rw [← zpow_natCast, Int.toNat_of_nonneg (by omega), zpow_neg, one_div, inv_inv]

/-- Digits with zeros behind them that bring them to their places. -/
theorem Digits.shows_filled {text : List Char} (digits : Digits text) (some : text ≠ [])
    (zeros : Nat) : Shows (text ++ List.replicate zeros '0')
      (Nat.ofDigitChars 10 text 0 * 10 ^ zeros) := by
  have shown := (digits.append (digits_zeros zeros)).shows (by simp [some])
  rw [Nat.ofDigitChars_append, Nat.ofDigitChars_replicate_zero] at shown
  push_cast at shown
  rwa [mul_comm] at shown

theorem Digits.shows_filled_point {text : List Char} (digits : Digits text) (some : text ≠ [])
    (zeros : Nat) : Shows ((text ++ List.replicate zeros '0') ++ ".0".toList)
      (Nat.ofDigitChars 10 text 0 * 10 ^ zeros) := by
  have shown := shows_point (digits.append (digits_zeros zeros)) (by simp [some]) (digits_zeros 1)
  rw [Nat.ofDigitChars_append, Nat.ofDigitChars_append, Nat.ofDigitChars_replicate_zero,
    Nat.ofDigitChars_replicate_zero, List.length_replicate] at shown
  have cancelled : ((10 ^ 1 * (10 ^ zeros * Nat.ofDigitChars 10 text 0) : Nat) : ℚ) / 10 ^ 1 =
      Nat.ofDigitChars 10 text 0 * 10 ^ zeros := by
    push_cast
    ring
  rwa [cancelled] at shown

/-- A point in front of the last places. -/
theorem Digits.shows_parted {text : List Char} (digits : Digits text) {places : Nat}
    (inside : places < text.length) :
    Shows (text.take (text.length - places) ++ '.' :: text.drop (text.length - places))
      (Nat.ofDigitChars 10 text 0 / 10 ^ places) := by
  have onlyTaken : Digits (text.take (text.length - places)) := fun c taken =>
    digits c (List.mem_of_mem_take taken)
  have someTaken : text.take (text.length - places) ≠ [] := by
    intro empty
    have count := congrArg List.length empty
    rw [List.length_take, List.length_nil] at count
    omega
  have onlyDropped : Digits (text.drop (text.length - places)) := fun c dropped =>
    digits c (List.mem_of_mem_drop dropped)
  have count : (text.drop (text.length - places)).length = places := by
    rw [List.length_drop]
    omega
  have shown := shows_point onlyTaken someTaken onlyDropped
  rwa [List.take_append_drop, count] at shown

/-- Behind the point, zeros that bring the digits to the last places. -/
theorem Digits.shows_behind {text : List Char} (digits : Digits text) {places : Nat}
    (outside : text.length ≤ places) :
    Shows ('0' :: '.' :: List.replicate (places - text.length) '0' ++ text)
      (Nat.ofDigitChars 10 text 0 / 10 ^ places) := by
  have onlyPlaces := (digits_zeros (places - text.length)).append digits
  have count : (List.replicate (places - text.length) '0' ++ text).length = places := by
    rw [List.length_append, List.length_replicate]
    omega
  have shown := shows_point (digits_zeros 1) (by simp) onlyPlaces
  rw [count, Nat.ofDigitChars_append, Nat.ofDigitChars_append, Nat.ofDigitChars_replicate_zero,
    Nat.ofDigitChars_replicate_zero, Nat.mul_zero] at shown
  exact shown

/-- With all digits in their places, a number is shown; a point is missing only where the layout
    does without. -/
theorem shows_positionalText (d : Decimal) (pointed : Bool) :
    Shows (d.positionalText pointed).toList d.toRat ∧
      (pointed = true → '.' ∈ (d.positionalText pointed).toList) := by
  have digits := digits_toDigits d.digits
  have some : Nat.toDigits 10 d.digits ≠ [] := Nat.toDigits_ne_nil
  have value : Nat.ofDigitChars 10 (Nat.toDigits 10 d.digits) 0 = d.digits :=
    Nat.ofDigitChars_ten_toDigits
  rw [positionalText, toRat]
  generalize Nat.toDigits 10 d.digits = text at digits some value
  rw [← value]
  split
  · rename_i whole
    rw [pow_of_nonneg whole]
    cases pointed with
    | false => simpa using digits.shows_filled some d.exponent.toNat
    | true =>
        rw [if_pos rfl, String.toList_append, String.toList_ofList]
        exact ⟨digits.shows_filled_point some _, fun _ => by simp⟩
  · rename_i fraction
    rw [pow_of_neg fraction, mul_one_div]
    dsimp only
    split
    · rename_i inside
      rw [String.toList_ofList]
      exact ⟨digits.shows_parted inside, fun _ => by simp⟩
    · rename_i outside
      rw [String.toList_ofList]
      exact ⟨digits.shows_behind (Nat.le_of_not_lt outside), fun _ => by simp⟩

theorem shows_toDigits (n : Nat) : Shows (Nat.toDigits 10 n) n := by
  have shown := (digits_toDigits n).shows Nat.toDigits_ne_nil
  rwa [Nat.ofDigitChars_ten_toDigits] at shown

theorem toList_integer (n : Int) :
    (toString n).toList = sign (n < 0) ++ Nat.toDigits 10 n.natAbs := by
  have minus : "-".toList = ['-'] := rfl
  rw [Int.toString_eq_repr, Int.repr_eq_if]
  by_cases negative : n < 0
  · have distance : (-n).toNat = n.natAbs := by omega
    rw [if_neg (by omega), sign, decide_eq_true negative, if_pos rfl, String.toList_append, minus,
      Nat.toList_repr, distance]
  · have distance : n.toNat = n.natAbs := by omega
    rw [if_pos (by omega), sign, decide_eq_false negative, if_neg (by decide), List.nil_append,
      Nat.toList_repr, distance]

theorem numeral_integer (n : Int) : Numeral (toString n) :=
  (shows_toDigits n.natAbs).numeral (toList_integer n)

theorem toString_integer_injective {m n : Int} (same : toString m = toString n) : m = n := by
  have sameText := congrArg String.toList same
  rw [toList_integer, toList_integer] at sameText
  have shownM := shows_toDigits m.natAbs
  have shownN := shows_toDigits n.natAbs
  obtain ⟨sameSign, sameDigits⟩ := shownM.sign_append_inj shownN sameText
  rw [sameDigits] at shownM
  have distance : m.natAbs = n.natAbs := Nat.cast_injective (shownM.reads.symm.trans shownN.reads)
  rw [decide_eq_decide] at sameSign
  omega

/-! ### Scientific texts -/

theorem signed_exponent (exponent : Int) :
    signed (((if 0 ≤ exponent then "+" else "-") ++ toString exponent.natAbs).toList) =
      exponent := by
  have value : Nat.ofDigitChars 10 (Nat.toDigits 10 exponent.natAbs) 0 = exponent.natAbs :=
    Nat.ofDigitChars_ten_toDigits
  have digits : (toString exponent.natAbs).toList = Nat.toDigits 10 exponent.natAbs :=
    Nat.toList_repr
  rw [String.toList_append, digits]
  split
  · have sign : "+".toList = ['+'] := rfl
    rw [sign, List.singleton_append, signed]
    · rw [List.drop_one, List.tail_cons, value]
      omega
    · simp
  · have sign : "-".toList = ['-'] := rfl
    rw [sign, List.singleton_append, signed, value]
    omega

theorem exponent_only (exponent : Int) : ∀ c ∈ ((if 0 ≤ exponent then "+" else "-") ++
    toString exponent.natAbs).toList, OfNumber c := by
  have digits : (toString exponent.natAbs).toList = Nat.toDigits 10 exponent.natAbs :=
    Nat.toList_repr
  intro c inside
  rw [String.toList_append, digits, List.mem_append] at inside
  rcases inside with sign | digit
  · refine Or.inr ?_
    split at sign <;> simp_all
  · exact Or.inl (digits_toDigits _ c digit)

/-- A digit before the point, and the others behind it where there are any. -/
def pointedBehind (first : Char) (fraction : List Char) : List Char :=
  first :: if fraction.isEmpty then [] else '.' :: fraction

theorem shows_pointedBehind {first : Char} {fraction : List Char}
    (only : Digits (first :: fraction)) : Shows (pointedBehind first fraction)
      (Nat.ofDigitChars 10 (first :: fraction) 0 / 10 ^ fraction.length) := by
  cases fraction with
  | nil => simpa [pointedBehind] using only.shows (by simp)
  | cons c rest =>
      have onlyFirst : Digits [first] := fun c inside =>
        only c (List.mem_singleton.mp inside ▸ List.mem_cons_self)
      exact shows_point onlyFirst (by simp) fun c inside => only c (List.mem_cons_of_mem _ inside)

theorem scientificText_eq {d : Decimal} {first : Char} {fraction : List Char}
    (split : Nat.toDigits 10 d.digits = first :: fraction) :
    d.scientificText.toList = pointedBehind first fraction ++
      'e' :: ((if 0 ≤ d.leading then "+" else "-") ++ toString d.leading.natAbs).toList := by
  have mark : "e".toList = ['e'] := rfl
  simp only [scientificText, split, String.toList_append, String.toList_ofList, mark,
    List.drop_one, List.tail_cons, List.append_assoc, List.singleton_append]
  rfl

/-- With the leading digit before the point, the exponent is that of the leading digit. -/
theorem shows_scientificText (d : Decimal) :
    Shows d.scientificText.toList d.toRat ∧ 'e' ∈ d.scientificText.toList := by
  have digits := digits_toDigits d.digits
  have value : Nat.ofDigitChars 10 (Nat.toDigits 10 d.digits) 0 = d.digits :=
    Nat.ofDigitChars_ten_toDigits
  obtain ⟨first, fraction, split⟩ := List.exists_cons_of_ne_nil
    (Nat.toDigits_ne_nil (b := 10) (n := d.digits))
  have exponent : d.leading = d.exponent + fraction.length := by
    rw [leading, split, List.length_cons]
    omega
  rw [split] at digits value
  have shown := shows_pointedBehind digits
  have plain : 'e' ∉ pointedBehind first fraction := by
    have absent : 'e' ∉ first :: fraction := digits.absent (by decide)
    rw [pointedBehind]
    split <;> simp_all
  rw [scientificText_eq split]
  refine ⟨⟨?_, fun c inside => ?_, ?_⟩, by simp⟩
  · obtain ⟨c, rest, begins, digit⟩ := shown.first
    exact ⟨c, _, by rw [begins, List.cons_append], digit⟩
  · rcases List.mem_append.mp inside with before | behind
    · exact shown.only c before
    · rcases List.mem_cons.mp behind with rfl | later
      · exact Or.inr (by simp)
      · exact exponent_only d.leading c later
  · rw [numeral_scientific plain, ← numeral_plain plain, shown.reads, value, signed_exponent,
      exponent, toRat, zpow_add₀ (by norm_num), zpow_natCast]
    field_simp

/-! ## Writing doubles -/

namespace Layout

variable {layout : Layout} {x y : Float}

/-- The text of a decimal in a layout. -/
def body (layout : Layout) (d : Decimal) : String :=
  let inPlace := match layout.positional with
    | none => true
    | some (least, greatest) => d.leading ≥ least && d.leading ≤ greatest
  if inPlace then d.positionalText layout.pointed else d.scientificText

theorem write_eq (layout : Layout) (x : Float) : layout.write x =
    match Double.ofFloat x with
    | .nan => layout.nan
    | .infinite negative => if negative then layout.negativeInfinity else layout.infinity
    | .finite negative significand exponent => (if negative then "-" else "") ++
        layout.body (shortest layout.tie significand exponent) := rfl

/-- Where the layout keeps points, there is a point or an exponent. -/
theorem shows_body (layout : Layout) (d : Decimal) :
    Shows (layout.body d).toList d.toRat ∧ (layout.pointed = true →
      '.' ∈ (layout.body d).toList ∨ 'e' ∈ (layout.body d).toList) := by
  have either : layout.body d = d.positionalText layout.pointed ∨
      layout.body d = d.scientificText := ite_eq_or_eq _ _ _
  rcases either with inPlace | scientific
  · obtain ⟨shown, point⟩ := shows_positionalText d layout.pointed
    rw [inPlace]
    exact ⟨shown, fun pointed => Or.inl (point pointed)⟩
  · obtain ⟨shown, exponent⟩ := shows_scientificText d
    rw [scientific]
    exact ⟨shown, fun _ => Or.inr exponent⟩

theorem toList_write (layout : Layout) {negative : Bool} {significand : Nat} {exponent : Int}
    (number : Double.ofFloat x = .finite negative significand exponent) :
    (layout.write x).toList =
      sign negative ++ (layout.body (shortest layout.tie significand exponent)).toList := by
  rw [write_eq, number]
  cases negative <;> simp [sign]

theorem numeral_write (layout : Layout) (finite : (Double.ofFloat x).isFinite = true) :
    Numeral (layout.write x) := by
  obtain ⟨_, _, _, number⟩ := Double.isFinite_iff.mp finite
  exact (layout.shows_body _).1.numeral (layout.toList_write number)

/-- A layout that keeps points writes no real as an integer is written. -/
theorem toString_integer_ne_write {layout : Layout} (pointed : layout.pointed = true)
    (finite : (Double.ofFloat x).isFinite = true) (n : Int) : toString n ≠ layout.write x := by
  intro same
  obtain ⟨negative, significand, exponent, number⟩ := Double.isFinite_iff.mp finite
  obtain ⟨shown, marked⟩ := layout.shows_body (shortest layout.tie significand exponent)
  have sameText := congrArg String.toList same
  rw [toList_integer, layout.toList_write number] at sameText
  obtain ⟨-, sameDigits⟩ := (shows_toDigits n.natAbs).sign_append_inj shown sameText
  have only := digits_toDigits n.natAbs
  rw [sameDigits] at only
  rcases marked pointed with point | exponent
  · exact only.absent (by decide) point
  · exact only.absent (by decide) exponent

theorem write_injective (finite : (Double.ofFloat x).isFinite = true)
    (finiteToo : (Double.ofFloat y).isFinite = true)
    (same : layout.write x = layout.write y) : x = y := by
  obtain ⟨_, m, e, ofX⟩ := Double.isFinite_iff.mp finite
  obtain ⟨_, m', e', ofY⟩ := Double.isFinite_iff.mp finiteToo
  obtain ⟨shownX, _⟩ := layout.shows_body (shortest layout.tie m e)
  obtain ⟨shownY, _⟩ := layout.shows_body (shortest layout.tie m' e')
  have sameText := congrArg String.toList same
  rw [layout.toList_write ofX, layout.toList_write ofY] at sameText
  obtain ⟨rfl, sameBody⟩ := shownX.sign_append_inj shownY sameText
  rw [sameBody] at shownX
  obtain ⟨rfl, rfl⟩ := shortest_unique (Double.canonical_ofFloat ofX)
    (Double.canonical_ofFloat ofY) (shownX.reads.symm.trans shownY.reads)
  exact Double.ofFloat_injective (ofX.trans ofY.symm)

end Layout

end SchemaGraph.Decimal
