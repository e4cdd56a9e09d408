import SchemaGraph.Time.Notation
import SchemaGraph.Proofs.Decimal.Digits

/-! # Written instants are read back

Reading is more liberal than writing, so what is written is only one of the texts of an instant.
-/

namespace SchemaGraph.Time

theorem Date.of?_self (d : Date) : Date.of? d.year d.month d.day = some d := dif_pos d.valid

namespace Instant

open Decimal (Digits NoDigit natural?_digits takeWhile_digits dropWhile_digits)

variable {text rest : List Char} {width n : Nat}

/-! ## Numbers -/

theorem toList_padded (width n : Nat) : (padded width n).toList =
    List.replicate (width - (Nat.toDigits 10 n).length) '0' ++ Nat.toDigits 10 n :=
  String.toList_ofList

theorem digits_padded (width n : Nat) : Digits (padded width n).toList := by
  rw [toList_padded]
  exact (Decimal.digits_zeros _).append (Decimal.digits_toDigits n)

theorem padded_ne_nil (width n : Nat) : (padded width n).toList ≠ [] := by
  rw [toList_padded]
  exact List.append_ne_nil_of_right_ne_nil _ Nat.toDigits_ne_nil

theorem ofDigitChars_padded (width n : Nat) :
    Nat.ofDigitChars 10 (padded width n).toList 0 = n := by
  rw [toList_padded, Nat.ofDigitChars_append, Nat.ofDigitChars_replicate_zero]
  exact Nat.ofDigitChars_ten_toDigits

theorem length_padded (some : 0 < width) (fits : n < 10 ^ width) :
    (padded width n).toList.length = width := by
  have short := (Nat.length_toDigits_le_iff (by decide) some).mpr fits
  rw [toList_padded, List.length_append, List.length_replicate]
  omega

/-- Digits are read up to the most that are wanted, or to the first other character. -/
theorem number?_digits {most : Nat} (digits : Digits text) (some : text ≠ [])
    (fits : text.length ≤ most) (stops : NoDigit (rest.take (most - text.length))) :
    number? most (text ++ rest) = Option.some (Nat.ofDigitChars 10 text 0, rest) := by
  have taken : (text ++ rest).take most = text ++ rest.take (most - text.length) := by
    rw [List.take_append, List.take_of_length_le fits]
  simp only [number?, taken, takeWhile_digits digits stops, natural?_digits digits some,
    List.drop_left, Option.bind_eq_bind, Option.bind_some, Option.pure_def]

theorem number?_padded (some : 0 < width) (fits : n < 10 ^ width) (rest : List Char) :
    number? width ((padded width n).toList ++ rest) = Option.some (n, rest) := by
  have length := length_padded some fits
  have stops : NoDigit (rest.take (width - (padded width n).toList.length)) := by
    simp [length, NoDigit]
  rw [number?_digits (digits_padded width n) (padded_ne_nil width n) (Nat.le_of_eq length) stops,
    ofDigitChars_padded]

/-! ## Blanks -/

theorem not_isBlank_of_isDigit {c : Char} (digit : c.isDigit = true) : Text.isBlank c = false := by
  have bounds : 48 ≤ c.toNat ∧ c.toNat ≤ 57 := by
    simpa [Char.isDigit, UInt32.le_iff_toNat_le] using digit
  simp only [Text.isBlank, Text.blankRanges, List.any_eq_false, Bool.and_eq_true,
    decide_eq_true_eq, List.forall_mem_cons, List.not_mem_nil, false_implies, implies_true,
    and_true]
  omega

theorem skipBlank_cons {c : Char} (visible : Text.isBlank c = false) :
    skipBlank (c :: rest) = c :: rest :=
  List.dropWhile_cons_of_neg (by simp [visible])

theorem skipBlank_digits (digits : Digits text) (some : text ≠ []) (rest : List Char) :
    skipBlank (text ++ rest) = text ++ rest := by
  cases text with
  | nil => exact absurd rfl some
  | cons c text => exact skipBlank_cons (not_isBlank_of_isDigit (digits c List.mem_cons_self))

theorem mark?_cons {c : Char} (visible : Text.isBlank c = false) :
    mark? c (c :: rest) = some rest := by
  simp only [mark?, skipBlank_cons visible, if_true]

/-! ## The parts of an instant -/

theorem twoDigits?_padded (fits : n < 100) (rest : List Char) :
    twoDigits? ((padded 2 n).toList ++ rest) = some (n, rest) := by
  unfold twoDigits?
  rw [skipBlank_digits (digits_padded 2 n) (padded_ne_nil 2 n)]
  exact number?_padded (by decide) fits rest

/-- Behind a sign, a year may have any length. -/
theorem number?_year (n : Nat) (rest : List Char) :
    number? ((padded 4 n).toList ++ '-' :: rest).length ((padded 4 n).toList ++ '-' :: rest) =
      some (n, '-' :: rest) := by
  have stops (k : Nat) : NoDigit (('-' :: rest).take k) := by
    intro c first
    cases k with
    | zero => cases first
    | succ k => cases first; rfl
  rw [number?_digits (digits_padded 4 n) (padded_ne_nil 4 n) (by simp) (stops _),
    ofDigitChars_padded]

theorem year?_of_digit {c : Char} (digit : c.isDigit = true) :
    year? (c :: rest) = (number? 4 (c :: rest)).map fun found => ((found.1 : Int), found.2) := by
  unfold year?
  rw [skipBlank_cons (not_isBlank_of_isDigit digit)]
  split
  · rename_i same
    cases same
    cases digit
  · rename_i same
    cases same
    cases digit
  · rfl

theorem year?_yearText (year : Int) (rest : List Char) :
    year? ((yearText year).toList ++ '-' :: rest) = some (year, '-' :: rest) := by
  unfold yearText
  split
  · rename_i plain
    have read := number?_padded (by decide) (by omega : year.toNat < 10 ^ 4) ('-' :: rest)
    obtain ⟨c, more, text⟩ := List.exists_cons_of_ne_nil (padded_ne_nil 4 year.toNat)
    have digit : c.isDigit = true := digits_padded 4 year.toNat c (text ▸ List.mem_cons_self)
    rw [text, List.cons_append] at read ⊢
    rw [year?_of_digit digit, read, Option.map_some, Int.toNat_of_nonneg plain.1]
  · rename_i signed
    rw [String.toList_append, List.append_assoc]
    split
    · rename_i negative
      have distance : -(year.natAbs : Int) = year := by omega
      have minus : "-".toList = ['-'] := rfl
      rw [minus, List.singleton_append]
      unfold year?
      rw [skipBlank_cons (by decide)]
      change (number? _ _).map _ = _
      rw [number?_year, Option.map_some, distance]
    · rename_i positive
      have distance : (year.natAbs : Int) = year := by omega
      have plus : "+".toList = ['+'] := rfl
      rw [plus, List.singleton_append]
      unfold year?
      rw [skipBlank_cons (by decide)]
      change (number? _ _).map _ = _
      rw [number?_year, Option.map_some, distance]

theorem fraction?_digits (digits : Digits text) (some : text ≠ []) (fits : text.length ≤ 9)
    (stops : NoDigit rest) : fraction? ('.' :: (text ++ rest)) =
      Option.some (Nat.ofDigitChars 10 text 0 * 10 ^ (9 - text.length), rest) := by
  have taken : (text ++ rest).take 9 = text ++ rest.take (9 - text.length) := by
    rw [List.take_append, List.take_of_length_le fits]
  have stopsToo : NoDigit (rest.take (9 - text.length)) := by
    intro c first
    rw [List.head?_take] at first
    split at first
    · cases first
    · exact stops c first
  simp only [fraction?, taken, takeWhile_digits digits stopsToo, natural?_digits digits some,
    dropWhile_digits digits stops, Option.bind_eq_bind, Option.bind_some, Option.pure_def]
  rfl

theorem fraction?_fractionText {nanosecond : Nat} (fits : nanosecond < 1000000000) :
    fraction? ((fractionText nanosecond).toList ++ ['Z']) = some (nanosecond, ['Z']) := by
  have written (width : Nat) (some : 0 < width) (upTo : width ≤ 9) (places : Nat)
      (inside : places < 10 ^ width) :
      fraction? (("." ++ padded width places).toList ++ ['Z']) =
        Option.some (places * 10 ^ (9 - width), ['Z']) := by
    have length := length_padded some inside
    have stops : NoDigit ['Z'] := by
      intro c first
      cases first
      rfl
    have read := fraction?_digits (digits_padded width places) (padded_ne_nil width places)
      (by omega) stops
    rw [ofDigitChars_padded, length] at read
    rw [String.toList_append]
    exact read
  unfold fractionText
  split
  · rename_i zero
    rw [zero]
    rfl
  · split
    · rw [written 3 (by decide) (by decide) _ (by omega)]
      congr 2
      omega
    · split
      · rw [written 6 (by decide) (by decide) _ (by omega)]
        congr 2
        omega
      · rw [written 9 (by decide) (by decide) _ (by omega)]
        congr 2
        omega

/-! ## The whole instant -/

theorem of?_self (i : Instant) : of? i.date i.hour i.minute i.second i.nanosecond = some i :=
  dif_pos i.valid

/-- At Greenwich, the clock shows the instant. -/
theorem behind?_zero {i : Instant} (possible : inRange i.date = true) :
    i.behind? 0 = some i := by
  obtain ⟨hours, minutes, _⟩ := i.valid
  have early : ¬ ((60 * i.hour + i.minute : Int) - 0 < 0) := by omega
  have late : (60 * i.hour + i.minute : Int) - 0 < 1440 := by omega
  have ofDay : (((60 * i.hour + i.minute : Int) - 0) % 1440).toNat = 60 * i.hour + i.minute := by
    omega
  have hour : (60 * i.hour + i.minute) / 60 = i.hour := by omega
  have minute : (60 * i.hour + i.minute) % 60 = i.minute := by omega
  simp only [behind?, if_neg early, if_pos late, ofDay, hour, minute, possible, Bool.and_self,
    if_true, of?_self]

theorem toList_write (i : Instant) : i.write.toList =
    (yearText i.date.year).toList ++ '-' :: ((padded 2 i.date.month).toList ++
      '-' :: ((padded 2 i.date.day).toList ++ 'T' :: ((padded 2 i.hour).toList ++
      ':' :: ((padded 2 i.minute).toList ++ ':' :: ((padded 2 i.second).toList ++
      ((fractionText i.nanosecond).toList ++ ['Z'])))))) := by
  have marks : "-".toList = ['-'] ∧ "T".toList = ['T'] ∧ ":".toList = [':'] ∧ "Z".toList = ['Z'] :=
    ⟨rfl, rfl, rfl, rfl⟩
  simp only [write, String.toList_append, marks, List.append_assoc, List.cons_append,
    List.nil_append]

/-- Once the parts are read one behind the other, they make up the instant. -/
theorem read?_of_parts {text : String} {year : Int} {month day hour minute second nanosecond : Nat}
    {months days hours minutes seconds fraction : List Char}
    (years : year? text.toList = some (year, '-' :: months))
    (inYear : twoDigits? months = some (month, '-' :: days))
    (inMonth : twoDigits? days = some (day, 'T' :: hours))
    (inDay : twoDigits? hours = some (hour, ':' :: minutes))
    (inHour : twoDigits? minutes = some (minute, ':' :: seconds))
    (inMinute : twoDigits? seconds = some (second, fraction))
    (inSecond : fraction? fraction = some (nanosecond, ['Z'])) :
    read? text = (Date.of? year month day).bind fun date =>
      (of? date hour minute second nanosecond).bind fun clock => clock.behind? 0 := by
  have dash (rest : List Char) : mark? '-' ('-' :: rest) = some rest := mark?_cons (by decide)
  have colon (rest : List Char) : mark? ':' (':' :: rest) = some rest := mark?_cons (by decide)
  have greenwich : offset? (skipBlank ['Z']) = some (0, []) := rfl
  have nothing : (skipBlank []).isEmpty = true := rfl
  -- step by step, since `simp` would copy all that follows the mark `T` into its branches
  rw [read?, years, Option.bind_eq_bind, Option.bind_some]
  dsimp -zeta only
  rw [dash, Option.bind_eq_bind, Option.bind_some, inYear, Option.bind_eq_bind, Option.bind_some]
  dsimp -zeta only
  rw [dash, Option.bind_eq_bind, Option.bind_some, inMonth, Option.bind_eq_bind, Option.bind_some]
  dsimp -zeta only
  rw [if_pos (Or.inl rfl)]
  dsimp only
  simp only [Option.bind_some, inDay, colon, inHour, inMinute, inSecond, greenwich, nothing,
    if_true]

/-- An instant of a possible year can be read off its text. -/
theorem read?_write {i : Instant} (possible : inRange i.date = true) :
    read? i.write = some i := by
  obtain ⟨hours, minutes, seconds, nanoseconds⟩ := i.valid
  obtain ⟨months, _, days⟩ := i.date.valid
  have longest : monthLength i.date.year i.date.month ≤ 31 := by
    unfold monthLength
    split
    · split <;> omega
    · split <;> omega
  have years := (congrArg year? (toList_write i)).trans (year?_yearText i.date.year _)
  rw [read?_of_parts years (twoDigits?_padded (by omega) _) (twoDigits?_padded (by omega) _)
    (twoDigits?_padded (by omega) _) (twoDigits?_padded (by omega) _)
    (twoDigits?_padded (by omega) _) (fraction?_fractionText nanoseconds), Date.of?_self,
    Option.bind_some, of?_self, Option.bind_some, behind?_zero possible]

end Instant

end SchemaGraph.Time
