import SchemaGraph.Proofs.Decimal.Whole
import SchemaGraph.Proofs.Value.Json

/-! # What fingerprints do not tell apart

Two values count as one text when one of them is a text that spells what the other counts as, or
when an integer and a real are the same number. Other than that, a text tells its value but for
the reals in arrays and maps that are no finite number.
-/

namespace SchemaGraph.Value

open Decimal (Double Layout Numeral)

variable {v w : Value}

/-- The shortest decimal of a real is an integer. Minus zero is none. -/
def IsWhole (x : Float) (n : Int) : Prop :=
  ∃ significand exponent, Double.ofFloat x = .finite (n < 0) significand exponent ∧
    (Decimal.shortest .up significand exponent).toRat = n.natAbs

/-- Values that fingerprints do not tell apart. -/
inductive CountAlike : Value → Value → Prop where
  | same (v : Value) : CountAlike v v
  /-- A text that spells what the other value counts as. -/
  | spelled (v : Value) : CountAlike (.text v.fingerprintText) v
  | spelledToo (v : Value) : CountAlike v (.text v.fingerprintText)
  | whole {n : Int64} {x : Float} (isWhole : IsWhole x n.toInt) : CountAlike (.integer n) (.real x)
  | wholeToo {n : Int64} {x : Float} (isWhole : IsWhole x n.toInt) :
      CountAlike (.real x) (.integer n)
  /-- The items are the same but for reals that are no finite number. -/
  | arrays {items items' : List Value} (same : items.map jsonForm = items'.map jsonForm) :
      CountAlike (.array items) (.array items')
  | maps {entries entries' : List (String × Value)}
      (same : (entries.map fun entry => (entry.1, entry.2.jsonForm)) =
        entries'.map fun entry => (entry.1, entry.2.jsonForm)) :
      CountAlike (.map entries) (.map entries')

/-! ## Shown reals -/

/-- What is shown for doubles that are no finite number. -/
def specials : List (Double × String) :=
  [(.nan, "NaN"), (.infinite false, "inf"), (.infinite true, "-inf")]

theorem shown_of_not_finite {x : Float} (infinite : (Double.ofFloat x).isFinite = false) :
    (Double.ofFloat x, shownReals.write x) ∈ specials := by
  rw [Layout.write_eq]
  cases number : Double.ofFloat x with
  | nan => decide
  | infinite negative => cases negative <;> decide
  | finite => simp [number, Double.isFinite] at infinite

theorem numeral_shown_iff {x : Float} :
    Numeral (shownReals.write x) ↔ (Double.ofFloat x).isFinite = true := by
  constructor
  · intro numeral
    by_contra infinite
    have letters : ∀ special ∈ specials, ¬ Numeral special.2 := by decide
    exact letters _ (shown_of_not_finite (Bool.eq_false_of_not_eq_true infinite)) numeral
  · exact Layout.numeral_write shownReals

theorem shown_injective {x y : Float} (same : shownReals.write x = shownReals.write y) :
    x = y := by
  cases finite : (Double.ofFloat x).isFinite with
  | true =>
      have finiteToo := numeral_shown_iff.mp (same ▸ numeral_shown_iff.mpr finite)
      exact Layout.write_injective finite finiteToo same
  | false =>
      have infiniteToo : (Double.ofFloat y).isFinite = false := by
        rw [Bool.eq_false_iff, ne_eq, ← numeral_shown_iff, ← same, numeral_shown_iff, finite]
        decide
      have special := shown_of_not_finite finite
      have specialToo := shown_of_not_finite infiniteToo
      rw [← same] at specialToo
      have apart : ∀ one ∈ specials, ∀ other ∈ specials, one.2 = other.2 → one.1 = other.1 := by
        decide
      exact Double.ofFloat_injective (apart _ special _ specialToo rfl)

theorem integer_eq_shown_iff {n : Int} {x : Float} :
    toString n = shownReals.write x ↔ IsWhole x n := by
  constructor
  · intro same
    have finite := numeral_shown_iff.mp (same ▸ Decimal.numeral_integer n)
    obtain ⟨negative, significand, exponent, number⟩ := Double.isFinite_iff.mp finite
    obtain ⟨rfl, whole⟩ := (shownReals.write_eq_toString_iff rfl rfl number n).mp same.symm
    exact ⟨significand, exponent, number, whole⟩
  · rintro ⟨significand, exponent, number, whole⟩
    exact ((shownReals.write_eq_toString_iff rfl rfl number n).mpr ⟨rfl, whole⟩).symm

theorem Word.ne_shown (h : Word v) (x : Float) : v.json ≠ shownReals.write x := by
  intro same
  cases finite : (Double.ofFloat x).isFinite with
  | true => exact h.not_numeral (same ▸ numeral_shown_iff.mpr finite)
  | false =>
      have words : ∀ special ∈ specials, special.2 ∉ ["null", "true", "false"] := by decide
      have isWord : v.json ∈ ["null", "true", "false"] := by
        cases h with
        | null => decide
        | boolean value => cases value <;> decide
      exact words _ (shown_of_not_finite finite) (same ▸ isWord)

/-! ## Scalars against arrays and maps -/

theorem Word.fingerprintText_eq (h : Word v) : v.fingerprintText = v.json := by
  cases h <;> rfl

theorem unmarked_shown (x : Float) : Unmarked (shownReals.write x).toList := by
  cases finite : (Double.ofFloat x).isFinite with
  | true => exact unmarked_of_numeral (numeral_shown_iff.mpr finite)
  | false =>
      have all : ∀ special ∈ specials, Unmarked special.2.toList := by decide
      exact all _ (shown_of_not_finite finite)

/-- An array or a map. -/
inductive Collection : Value → Prop where
  | array (items : List Value) : Collection (.array items)
  | map (entries : List (String × Value)) : Collection (.map entries)

theorem Collection.marked (h : Collection v) : ∃ c ∈ v.fingerprintText.toList, c ∈ marks := by
  cases h with
  | array items =>
      refine ⟨'[', ?_, by decide⟩
      rw [fingerprintText, toList_json_array]
      exact List.mem_cons_self
  | map entries =>
      refine ⟨'\x7b', ?_, by decide⟩
      rw [fingerprintText, toList_json_map]
      exact List.mem_cons_self

theorem Collection.ne_unmarked (h : Collection v) {text : String}
    (unmarked : Unmarked text.toList) : text ≠ v.fingerprintText := by
  rintro rfl
  obtain ⟨c, inside, isMark⟩ := h.marked
  exact unmarked c inside isMark

/-! ## All values -/

theorem CountAlike.symm (h : CountAlike v w) : CountAlike w v := by
  cases h with
  | same => exact .same v
  | spelled => exact .spelledToo w
  | spelledToo => exact .spelled v
  | whole isWhole => exact .wholeToo isWhole
  | wholeToo isWhole => exact .whole isWhole
  | arrays same => exact .arrays same.symm
  | maps same => exact .maps same.symm

theorem countAlike_of_text {text : String} (same : text = w.fingerprintText) :
    CountAlike (.text text) w := by
  subst same
  exact .spelled w

theorem Word.countAlike (word : Word v) (same : v.json = w.fingerprintText) :
    CountAlike v w := by
  have unmarked := Bare.unmarked (Or.inl word)
  cases w with
  | null =>
      rw [word.json_injective .null same]
      exact .same _
  | boolean value =>
      rw [word.json_injective (.boolean value) same]
      exact .same _
  | integer value => exact absurd same (word.json_ne_number (.integer value))
  | real x => exact absurd same (word.ne_shown x)
  | text value => exact (countAlike_of_text (same.symm.trans word.fingerprintText_eq.symm)).symm
  | array items => exact absurd same ((Collection.array items).ne_unmarked unmarked)
  | map entries => exact absurd same ((Collection.map entries).ne_unmarked unmarked)

theorem countAlike_of_integer {n : Int64}
    (same : (Value.integer n).fingerprintText = w.fingerprintText) :
    CountAlike (.integer n) w := by
  have unmarked := unmarked_of_numeral (Decimal.numeral_integer n.toInt)
  cases w with
  | null => exact (Word.null.countAlike same.symm).symm
  | boolean value => exact ((Word.boolean value).countAlike same.symm).symm
  | integer m =>
      rw [Number.json_injective (.integer n) (.integer m) same]
      exact .same _
  | real x => exact .whole (integer_eq_shown_iff.mp same)
  | text value => exact (countAlike_of_text same.symm).symm
  | array items => exact absurd same ((Collection.array items).ne_unmarked unmarked)
  | map entries => exact absurd same ((Collection.map entries).ne_unmarked unmarked)

theorem countAlike_of_real {x : Float}
    (same : (Value.real x).fingerprintText = w.fingerprintText) : CountAlike (.real x) w := by
  have unmarked := unmarked_shown x
  cases w with
  | null => exact (Word.null.countAlike same.symm).symm
  | boolean value => exact ((Word.boolean value).countAlike same.symm).symm
  | integer n => exact (countAlike_of_integer same.symm).symm
  | real y =>
      rw [shown_injective same]
      exact .same _
  | text value => exact (countAlike_of_text same.symm).symm
  | array items => exact absurd same ((Collection.array items).ne_unmarked unmarked)
  | map entries => exact absurd same ((Collection.map entries).ne_unmarked unmarked)

theorem Collection.countAlike (h : Collection v) (h' : Collection w)
    (same : v.json = w.json) : CountAlike v w := by
  have sameForm := json_eq_json_iff.mp same
  cases h with
  | array items =>
      cases h' with
      | array items' => exact .arrays (by simpa using sameForm)
      | map entries' => simp at sameForm
  | map entries =>
      cases h' with
      | array items' => simp at sameForm
      | map entries' => exact .maps (by simpa using sameForm)

theorem Collection.countAlike_of_same (h : Collection v)
    (same : v.fingerprintText = w.fingerprintText) : CountAlike v w := by
  have isJson : v.fingerprintText = v.json := by cases h <;> rfl
  cases w with
  | null => exact (Word.null.countAlike same.symm).symm
  | boolean value => exact ((Word.boolean value).countAlike same.symm).symm
  | integer n => exact (countAlike_of_integer same.symm).symm
  | real x => exact (countAlike_of_real same.symm).symm
  | text value => exact (countAlike_of_text same.symm).symm
  | array items => exact h.countAlike (.array items) (isJson.symm.trans same)
  | map entries => exact h.countAlike (.map entries) (isJson.symm.trans same)

/-- Values count as the same text exactly when they are told to count alike. -/
theorem fingerprintText_eq_iff :
    v.fingerprintText = w.fingerprintText ↔ CountAlike v w := by
  constructor
  · intro same
    cases v with
    | null => exact Word.null.countAlike same
    | boolean value => exact (Word.boolean value).countAlike same
    | integer n => exact countAlike_of_integer same
    | real x => exact countAlike_of_real same
    | text value => exact countAlike_of_text same
    | array items => exact (Collection.array items).countAlike_of_same same
    | map entries => exact (Collection.map entries).countAlike_of_same same
  · intro alike
    cases alike with
    | same => rfl
    | spelled => rfl
    | spelledToo => rfl
    | whole isWhole => exact integer_eq_shown_iff.mpr isWhole
    | wholeToo isWhole => exact (integer_eq_shown_iff.mpr isWhole).symm
    | arrays same => exact json_eq_json_iff.mpr (by rw [jsonForm_array, jsonForm_array, same])
    | maps same => exact json_eq_json_iff.mpr (by rw [jsonForm_map, jsonForm_map, same])

end SchemaGraph.Value
