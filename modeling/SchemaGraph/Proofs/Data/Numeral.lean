import SchemaGraph.Proofs.Decimal.Digits
import SchemaGraph.Proofs.Value.Json

/-! # Printed numbers are read back

The text of a number ends where a mark follows, and an integer is then read as itself. What a real
is read as depends on its text alone; that it is the same real is not said.
-/

namespace SchemaGraph.Data.Json

open Decimal (Digits NoDigit)

variable {rest : List Char}

/-! ## The parts of a number -/

/-- The digits of a number in front of the point and, if there is one, behind it, and the
    exponent, if there is one. -/
structure Parts where
  whole : List Char
  places : Option (List Char) := none
  exponent : Option Int := none

namespace Parts

/-- What the reader makes of a number. -/
def tree (negative : Bool) (p : Parts) : Tree :=
  let (word, excess) := leadingWord 0 p.whole
  let (word', left) := leadingWord word (p.places.getD [])
  let scale : Int := excess - ((p.places.getD []).length - left : Nat)
  match p.exponent with
  | some exponent => real negative word' (scale + exponent)
  | none =>
      if excess = 0 ∧ p.places.isNone then Json.whole negative word
      else real negative word' scale

/-- There are digits wherever some are expected, and the first is zero only if it is alone. -/
structure WellFormed (p : Parts) : Prop where
  whole : Digits p.whole
  someWhole : p.whole ≠ []
  noZero : ∀ more, p.whole = '0' :: more → more = []
  places : ∀ places ∈ p.places, Digits places ∧ places ≠ []

/-- What stands behind the digits in front of the point. -/
def pointText : Option (List Char) → List Char
  | none => []
  | some places => '.' :: places

/-- What stands behind all places. -/
def exponentText : Option Int → List Char
  | none => []
  | some e => 'e' :: (if 0 ≤ e then '+' else '-') :: Nat.toDigits 10 e.natAbs

def text (p : Parts) : List Char := p.whole ++ (pointText p.places ++ exponentText p.exponent)

end Parts

/-! ## The steps of the reader -/

/-- The digits may stand in front of the point. -/
def opens : List Char → Bool
  | [] => false
  | '0' :: rest => rest.isEmpty
  | _ => true

/-- The places behind a point, if one follows, and the text behind them. -/
def places? (text : List Char) : Option (Option (List Char) × List Char) :=
  match text with
  | '.' :: rest =>
      let places := rest.takeWhile Char.isDigit
      if places.isEmpty then none else some (some places, rest.dropWhile Char.isDigit)
  | _ => some (none, text)

/-- The exponent, if one follows, and the text behind it. -/
def marked? : List Char → Option (Option (Int × List Char))
  | mark :: rest => if mark = 'e' ∨ mark = 'E' then some (exponent? rest) else none
  | [] => none

/-- What is made of the digits and places that were read and of the exponent, if one follows. -/
def finished (negative : Bool) (digits : List Char) (found : Option (List Char) × List Char) :
    Option (Option (Int × List Char)) → Option (Tree × List Char)
  | none => some (Parts.tree negative ⟨digits, found.1, none⟩, found.2)
  | some none => none
  | some (some read) => some (Parts.tree negative ⟨digits, found.1, some read.1⟩, read.2)

/-- Reading a number goes by its parts, of which the tree is made at the end. -/
theorem unsigned?_eq (negative : Bool) (text : List Char) : unsigned? negative text =
    if opens (text.takeWhile Char.isDigit) then
      (places? (text.dropWhile Char.isDigit)).bind fun found =>
        finished negative (text.takeWhile Char.isDigit) found (marked? found.2)
    else none := by
  unfold unsigned?
  change (if (!opens (text.takeWhile Char.isDigit)) = true then none else _) = _
  cases opens (text.takeWhile Char.isDigit) with
  | false => rfl
  | true =>
      rw [if_neg (by decide), if_pos rfl]
      dsimp only
      split
      · rename_i unread
        have found : places? (text.dropWhile Char.isDigit) = none := unread
        rw [found, Option.bind_none]
      · rename_i places behind read
        have found : places? (text.dropWhile Char.isDigit) = some (places, behind) := read
        rw [found, Option.bind_some]
        split
        · rename_i unread
          have marked : marked? behind = some none := unread
          rw [marked]
          rfl
        · rename_i exponent rest readToo
          have marked : marked? behind = some (some (exponent, rest)) := readToo
          rw [marked]
          rfl
        · rename_i none
          have marked : marked? behind = Option.none := none
          simp only [marked, finished, Parts.tree]
          split <;> rfl

/-! ## Reading the parts -/

/-- A mark follows, and so the number is at its end. -/
theorem noDigit_of_ended (ended : Value.Ended rest) : NoDigit rest := by
  intro c first
  have marks : ∀ c ∈ [',', ']', '\x7d'], c.isDigit = false := by simp
  exact marks c (ended c first)

theorem opens_whole {digits : List Char} (some : digits ≠ [])
    (noZero : ∀ more, digits = '0' :: more → more = []) : opens digits = true := by
  unfold opens
  split
  · exact absurd rfl some
  · rename_i more
    rw [noZero more rfl, List.isEmpty_nil]
  · rfl

theorem places?_pointText {places : Option (List Char)} {behind : List Char}
    (digits : ∀ digits ∈ places, Digits digits ∧ digits ≠ []) (stops : NoDigit behind)
    (noPoint : behind.head? ≠ some '.') :
    places? (Parts.pointText places ++ behind) = some (places, behind) := by
  cases places with
  | none =>
      unfold places?
      split
      · rename_i same
        exact absurd (congrArg List.head? same) noPoint
      · rfl
  | some places =>
      obtain ⟨digits, someDigits⟩ := digits places rfl
      have nonempty : places.isEmpty = false := by simpa using someDigits
      simp only [Parts.pointText, List.cons_append, places?, Decimal.takeWhile_digits digits stops,
        Decimal.dropWhile_digits digits stops, nonempty, Bool.false_eq_true, if_false]

theorem exponent?_toDigits (e : Int) (stops : NoDigit rest) :
    exponent? ((if 0 ≤ e then '+' else '-') :: (Nat.toDigits 10 e.natAbs ++ rest)) =
      some (e, rest) := by
  have digits := Decimal.digits_toDigits e.natAbs
  have read : Decimal.natural? 10 (Nat.toDigits 10 e.natAbs) = some e.natAbs := by
    rw [Decimal.natural?_digits digits Nat.toDigits_ne_nil, Nat.ofDigitChars_ten_toDigits]
  by_cases above : 0 ≤ e
  · have distance : (e.natAbs : Int) = e := by omega
    simp only [exponent?, if_pos above, Decimal.takeWhile_digits digits stops,
      Decimal.dropWhile_digits digits stops, read, Bool.false_eq_true, if_false, distance]
  · have distance : -(e.natAbs : Int) = e := by omega
    simp only [exponent?, if_neg above, Decimal.takeWhile_digits digits stops,
      Decimal.dropWhile_digits digits stops, read, if_true, distance]

theorem marked?_exponentText (exponent : Option Int) (ended : Value.Ended rest) :
    marked? (Parts.exponentText exponent ++ rest) = exponent.map fun e => some (e, rest) := by
  cases exponent with
  | some e => exact congrArg some (exponent?_toDigits e (noDigit_of_ended ended))
  | none =>
      cases rest with
      | nil => rfl
      | cons c rest =>
          have marks : ∀ c ∈ [',', ']', '\x7d'], ¬ (c = 'e' ∨ c = 'E') := by simp
          exact if_neg (marks c (ended c rfl))

/-- Behind all places stands the mark of an exponent or what ends the number. -/
theorem head_behind (exponent : Option Int) (ended : Value.Ended rest) :
    ∀ c ∈ (Parts.exponentText exponent ++ rest).head?, c ∈ ['e', ',', ']', '\x7d'] := by
  intro c first
  cases exponent with
  | none => exact List.mem_cons_of_mem _ (ended c first)
  | some e =>
      cases first
      exact List.mem_cons_self

theorem noDigit_behind (places : Option (List Char)) (exponent : Option Int)
    (ended : Value.Ended rest) :
    NoDigit (Parts.pointText places ++ (Parts.exponentText exponent ++ rest)) := by
  intro c first
  cases places with
  | some places =>
      cases first
      rfl
  | none =>
      have marks : ∀ c ∈ ['e', ',', ']', '\x7d'], c.isDigit = false := by simp
      exact marks c (head_behind exponent ended c first)

/-- The parts of a number are read off its text, whatever follows it that ends it. -/
theorem unsigned?_text (negative : Bool) {p : Parts} (wellFormed : p.WellFormed)
    (ended : Value.Ended rest) :
    unsigned? negative (p.text ++ rest) = some (p.tree negative, rest) := by
  have stops := noDigit_behind p.places p.exponent ended
  have stopsLater : NoDigit (Parts.exponentText p.exponent ++ rest) :=
    noDigit_behind none p.exponent ended
  have noPoint : (Parts.exponentText p.exponent ++ rest).head? ≠ some '.' := by
    intro point
    exact absurd (head_behind p.exponent ended '.' point) (by decide)
  rw [Parts.text, List.append_assoc, List.append_assoc, unsigned?_eq,
    Decimal.takeWhile_digits wellFormed.whole stops,
    Decimal.dropWhile_digits wellFormed.whole stops,
    if_pos (opens_whole wellFormed.someWhole wellFormed.noZero),
    places?_pointText wellFormed.places stopsLater noPoint, Option.bind_some]
  rw [marked?_exponentText p.exponent ended]
  obtain ⟨whole, places, exponent⟩ := p
  cases exponent <;> rfl

/-! ## Signs -/

theorem number?_signed (negative : Bool) {text : List Char}
    (begins : ∃ c more, text = c :: more ∧ c.isDigit = true) :
    number? (Decimal.sign negative ++ text) = unsigned? negative text := by
  obtain ⟨c, more, rfl, digit⟩ := begins
  cases negative with
  | true => rfl
  | false =>
      change number? (c :: more) = _
      unfold number?
      split
      · rename_i same
        cases same
        cases digit
      · rfl

theorem Parts.WellFormed.begins {p : Parts} (wellFormed : p.WellFormed) (rest : List Char) :
    ∃ c more, p.text ++ rest = c :: more ∧ c.isDigit = true := by
  obtain ⟨c, more, front⟩ := List.exists_cons_of_ne_nil wellFormed.someWhole
  rw [Parts.text, front]
  exact ⟨c, _, rfl, wellFormed.whole c (front ▸ List.mem_cons_self)⟩

theorem number?_text (negative : Bool) {p : Parts} (wellFormed : p.WellFormed)
    (ended : Value.Ended rest) :
    number? (Decimal.sign negative ++ p.text ++ rest) = some (p.tree negative, rest) := by
  rw [List.append_assoc, number?_signed negative (wellFormed.begins rest),
    unsigned?_text negative wellFormed ended]

/-! ## Integers -/

theorem leadingWord_digits {digits : List Char} {word : Nat}
    (fits : Nat.ofDigitChars 10 digits word < UInt64.size) :
    leadingWord word digits = (Nat.ofDigitChars 10 digits word, 0) := by
  induction digits generalizing word with
  | nil => rfl
  | cons c digits ih =>
      rw [Nat.ofDigitChars_cons] at fits ⊢
      have next : 10 * word + (c.toNat - '0'.toNat) < UInt64.size := by
        have positive : 1 ≤ 10 ^ digits.length := Nat.one_le_pow _ _ (by decide)
        have grows := Nat.le_mul_of_pos_left (10 * word + (c.toNat - '0'.toNat)) positive
        rw [Nat.ofDigitChars_eq_ofDigitChars_zero] at fits
        omega
      unfold leadingWord
      rw [if_pos next]
      exact ih fits

theorem wellFormed_toDigits (n : Nat) : Parts.WellFormed { whole := Nat.toDigits 10 n } where
  whole := Decimal.digits_toDigits n
  someWhole := Nat.toDigits_ne_nil
  noZero _ := Decimal.tail_of_toDigits
  places _ none := by cases none

theorem tree_toDigits (negative : Bool) {n : Nat} (fits : n < UInt64.size) :
    Parts.tree negative { whole := Nat.toDigits 10 n } = whole negative n := by
  have value := Nat.ofDigitChars_ten_toDigits (n := n)
  have word : leadingWord 0 (Nat.toDigits 10 n) = (n, 0) := by
    rw [leadingWord_digits (by rw [value]; exact fits), value]
  simp only [Parts.tree, word, Option.isNone_none, and_self, if_true]

theorem whole_natAbs (n : Int64) : whole (n.toInt < 0) n.toInt.natAbs = .integer n := by
  have held : Tree.ofInt? n.toInt = some (.integer n) := by
    unfold Tree.ofInt?
    rw [if_pos ⟨Int64.minValue_le_toInt n, Int64.toInt_le n⟩, Int64.ofInt_toInt]
  unfold whole
  split
  · rename_i negative
    have below : n.toInt < 0 := by simpa using negative
    have distance : -(n.toInt.natAbs : Int) = n.toInt := by omega
    rw [if_neg (by omega), distance, held, Option.getD_some]
  · rename_i positive
    have above : ¬ n.toInt < 0 := by simpa using positive
    have distance : (n.toInt.natAbs : Int) = n.toInt := by omega
    rw [distance, held, Option.getD_some]

theorem number?_integer (n : Int64) (ended : Value.Ended rest) :
    number? ((toString n.toInt).toList ++ rest) = some (.integer n, rest) := by
  have fits : n.toInt.natAbs < UInt64.size := by
    have least := Int64.minValue_le_toInt n
    have greatest := Int64.toInt_le n
    have bounds : Int64.minValue.toInt = -(2 ^ 63 : Int) ∧ Int64.maxValue.toInt = 2 ^ 63 - 1 ∧
      UInt64.size = 2 ^ 64 := ⟨rfl, rfl, rfl⟩
    omega
  have text : Parts.text { whole := Nat.toDigits 10 n.toInt.natAbs } =
      Nat.toDigits 10 n.toInt.natAbs := List.append_nil _
  have read := number?_text (n.toInt < 0) (wellFormed_toDigits n.toInt.natAbs) ended
  rw [text, tree_toDigits _ fits, whole_natAbs] at read
  rw [Decimal.toList_integer, read]

/-! ## What numbers are read as -/

/-- What a number is read as. -/
inductive IsNumber : Tree → Prop
  | integer (value : Int64) : IsNumber (.integer value)
  | real (value : Float) : IsNumber (.real value)
  | unreadable : IsNumber .unreadable

theorem isNumber_real (negative : Bool) (word : Nat) (exponent : Int) :
    IsNumber (real negative word exponent) := by
  unfold real
  split
  · exact .real _
  · exact .unreadable

theorem isNumber_ofInt? (n : Int) (x : Float) : IsNumber ((Tree.ofInt? n).getD (.real x)) := by
  unfold Tree.ofInt?
  split
  · exact .integer _
  · exact .real x

theorem isNumber_whole (negative : Bool) (word : Nat) : IsNumber (whole negative word) := by
  unfold whole
  split
  · split
    · exact .real _
    · exact isNumber_ofInt? _ _
  · exact isNumber_ofInt? _ _

theorem isNumber_tree (negative : Bool) (p : Parts) : IsNumber (p.tree negative) := by
  unfold Parts.tree
  dsimp only
  split
  · exact isNumber_real _ _ _
  · split
    · exact isNumber_whole _ _
    · exact isNumber_real _ _ _

/-! ## Decimals -/

theorem eq_zero_of_toDigits {n : Nat} {rest : List Char}
    (begins : Nat.toDigits 10 n = '0' :: rest) : n = 0 := by
  have value := Nat.ofDigitChars_ten_toDigits (n := n)
  rw [begins, Decimal.tail_of_toDigits begins] at value
  exact value.symm

/-- Zero is not moved to other places. -/
def ZeroAtPoint (d : Decimal) : Prop := d.digits = 0 → d.exponent = 0

theorem wellFormed_filled {d : Decimal} (zero : ZeroAtPoint d) (places : Option (List Char))
    (digits : ∀ digits ∈ places, Digits digits ∧ digits ≠ []) : Parts.WellFormed {
      whole := Nat.toDigits 10 d.digits ++ List.replicate d.exponent.toNat '0', places } where
  whole := (Decimal.digits_toDigits _).append (Decimal.digits_zeros _)
  someWhole := by simp
  noZero more begins := by
    obtain ⟨c, tail, front⟩ := List.exists_cons_of_ne_nil
      (Nat.toDigits_ne_nil (b := 10) (n := d.digits))
    rw [front, List.cons_append] at begins
    obtain ⟨rfl, rfl⟩ := List.cons.inj begins
    have none := eq_zero_of_toDigits front
    rw [Decimal.tail_of_toDigits front, zero none]
    rfl
  places := digits

theorem wellFormed_parted {text : List Char} (digits : Digits text)
    (noZero : ∀ more, text = '0' :: more → more = []) {places : Nat} (positive : 0 < places)
    (inside : places < text.length) : Parts.WellFormed {
      whole := text.take (text.length - places)
      places := some (text.drop (text.length - places)) } where
  whole c taken := digits c (List.mem_of_mem_take taken)
  someWhole := by
    intro empty
    have count := congrArg List.length empty
    rw [List.length_take, List.length_nil] at count
    omega
  noZero more begins := by
    have front : text = '0' :: (more ++ text.drop (text.length - places)) := by
      rw [← List.cons_append, ← begins, List.take_append_drop]
    exact (List.append_eq_nil_iff.mp (noZero _ front)).1
  places := by
    rintro _ ⟨⟩
    refine ⟨fun c dropped => digits c (List.mem_of_mem_drop dropped), ?_⟩
    intro empty
    have count := congrArg List.length empty
    rw [List.length_drop, List.length_nil] at count
    omega

theorem wellFormed_behind {text : List Char} (digits : Digits text) (some : text ≠ [])
    (zeros : Nat) : Parts.WellFormed {
      whole := ['0'], places := Option.some (List.replicate zeros '0' ++ text) } where
  whole := Decimal.digits_zeros 1
  someWhole := List.cons_ne_nil _ _
  noZero _ begins := (List.cons.inj begins).2.symm
  places := by
    rintro _ ⟨⟩
    exact ⟨(Decimal.digits_zeros _).append digits, by simp [some]⟩

/-- The positional text of a decimal has the parts of a number. -/
theorem exists_parts_positional {d : Decimal} (zero : ZeroAtPoint d) (pointed : Bool) :
    ∃ p : Parts, p.WellFormed ∧ (d.positionalText pointed).toList = p.text := by
  have digits := Decimal.digits_toDigits d.digits
  have some : Nat.toDigits 10 d.digits ≠ [] := Nat.toDigits_ne_nil
  unfold Decimal.positionalText
  split
  · cases pointed with
    | true =>
        have point : ∀ digits ∈ Option.some ['0'], Digits digits ∧ digits ≠ [] := by
          rintro _ ⟨⟩
          exact ⟨Decimal.digits_zeros 1, List.cons_ne_nil _ _⟩
        refine ⟨_, wellFormed_filled zero _ point, ?_⟩
        rw [if_pos rfl, String.toList_append, String.toList_ofList]
        rfl
    | false =>
        have nothing : ∀ digits ∈ none, Digits digits ∧ digits ≠ [] := by
          rintro _ ⟨⟩
        refine ⟨_, wellFormed_filled zero _ nothing, ?_⟩
        simp [Parts.text, Parts.pointText, Parts.exponentText]
  · dsimp only
    split
    · rename_i fraction inside
      refine ⟨_, wellFormed_parted digits (fun _ => Decimal.tail_of_toDigits) (by omega) inside, ?_⟩
      rw [String.toList_ofList]
      simp [Parts.text, Parts.pointText, Parts.exponentText]
    · have behind := wellFormed_behind digits some
        ((-d.exponent).toNat - (Nat.toDigits 10 d.digits).length)
      refine ⟨_, behind, ?_⟩
      rw [String.toList_ofList]
      simp [Parts.text, Parts.pointText, Parts.exponentText]

theorem exists_parts_scientific (d : Decimal) :
    ∃ p : Parts, p.WellFormed ∧ d.scientificText.toList = p.text := by
  have digits := Decimal.digits_toDigits d.digits
  obtain ⟨first, fraction, split⟩ := List.exists_cons_of_ne_nil
    (Nat.toDigits_ne_nil (b := 10) (n := d.digits))
  rw [split] at digits
  refine ⟨{
    whole := [first]
    places := if fraction.isEmpty then none else some fraction
    exponent := some d.leading }, ?_, ?_⟩
  · constructor
    · intro c inside
      exact digits c (List.mem_singleton.mp inside ▸ List.mem_cons_self)
    · exact List.cons_ne_nil _ _
    · intro more begins
      exact (List.cons.inj begins).2.symm
    · intro places found
      obtain ⟨nonempty, same⟩ := Option.ite_none_left_eq_some.mp found
      cases same
      refine ⟨fun c inside => digits c (List.mem_cons_of_mem _ inside), ?_⟩
      rintro rfl
      exact nonempty rfl
  · have mark : (if 0 ≤ d.leading then "+" else "-").toList =
        [if 0 ≤ d.leading then '+' else '-'] := by
      split <;> rfl
    have size : (toString d.leading.natAbs).toList = Nat.toDigits 10 d.leading.natAbs :=
      Nat.toList_repr
    rw [Decimal.scientificText_eq split, String.toList_append, mark, size]
    cases fraction <;> rfl

theorem exists_parts_body (layout : Decimal.Layout) {d : Decimal} (zero : ZeroAtPoint d) :
    ∃ p : Parts, p.WellFormed ∧ (layout.body d).toList = p.text := by
  have either : layout.body d = d.positionalText layout.pointed ∨
      layout.body d = d.scientificText := ite_eq_or_eq _ _ _
  cases either with
  | inl inPlace =>
      rw [inPlace]
      exact exists_parts_positional zero layout.pointed
  | inr scientific =>
      rw [scientific]
      exact exists_parts_scientific d

theorem zeroAtPoint_shortest (tie : Decimal.Tie) {significand : Nat} {exponent : Int}
    (canonical : Decimal.Canonical significand exponent) :
    ZeroAtPoint (Decimal.shortest tie significand exponent) := by
  intro none
  have zero : (Decimal.shortest tie significand exponent).toRat = 0 := by
    simp only [Decimal.toRat, none, Nat.cast_zero, zero_mul]
  rw [(Decimal.toRat_shortest_eq_zero_iff tie canonical).mp zero, Decimal.shortest, if_pos rfl]

/-! ## Reals -/

/-- What the text of a real is read as, which is nothing when the real is no finite number. -/
def realTree (x : Float) : Tree :=
  match number? (realLayout.write x).toList with
  | some (t, _) => t
  | none => .null

variable {x : Float}

/-- The text of a finite real is read as a number, whatever follows it that ends it. -/
theorem number?_write (finite : (Decimal.Double.ofFloat x).isFinite = true) :
    IsNumber (realTree x) ∧ ∀ rest, Value.Ended rest →
      number? ((realLayout.write x).toList ++ rest) = some (realTree x, rest) := by
  obtain ⟨negative, significand, exponent, double⟩ := Decimal.Double.isFinite_iff.mp finite
  obtain ⟨p, wellFormed, body⟩ := exists_parts_body realLayout
    (zeroAtPoint_shortest realLayout.tie (Decimal.Double.canonical_ofFloat double))
  have text : (realLayout.write x).toList = Decimal.sign negative ++ p.text := by
    rw [realLayout.toList_write double, body]
  have ended : Value.Ended [] := by
    intro c first
    cases first
  have alone := number?_text negative wellFormed ended
  rw [List.append_nil, ← text] at alone
  have same : realTree x = p.tree negative := by
    unfold realTree
    rw [alone]
  rw [same]
  refine ⟨isNumber_tree negative p, fun rest ended => ?_⟩
  rw [text, number?_text negative wellFormed ended]

theorem write_of_not_finite (infinite : (Decimal.Double.ofFloat x).isFinite = false) :
    realLayout.write x = "null" := by
  rw [Decimal.Layout.write_eq]
  cases double : Decimal.Double.ofFloat x with
  | nan => rfl
  | infinite negative => cases negative <;> rfl
  | finite =>
      rw [double] at infinite
      cases infinite

theorem realTree_of_not_finite (infinite : (Decimal.Double.ofFloat x).isFinite = false) :
    realTree x = .null := by
  unfold realTree
  rw [write_of_not_finite infinite]
  rfl

/-- What a real is read as. -/
inductive Scalar : Tree → Prop
  | null : Scalar .null
  | number {t : Tree} (isNumber : IsNumber t) : Scalar t

theorem scalar_realTree (x : Float) : Scalar (realTree x) := by
  cases finite : (Decimal.Double.ofFloat x).isFinite with
  | true => exact .number (number?_write finite).1
  | false =>
      rw [realTree_of_not_finite finite]
      exact .null

theorem realTree_eq_null_iff : realTree x = .null ↔
    (Decimal.Double.ofFloat x).isFinite = false := by
  constructor
  · intro null
    by_contra finite
    have isNumber := (number?_write (by simpa using finite)).1
    rw [null] at isNumber
    cases isNumber
  · exact realTree_of_not_finite

end SchemaGraph.Data.Json
