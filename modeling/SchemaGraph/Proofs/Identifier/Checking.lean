import SchemaGraph.Proofs.Identifier.Digits
import SchemaGraph.Proofs.Identifier.Minting

/-! # Effective texts

A text is effective when its first digit is the sum of the others modulo 32. So no single
character can be replaced unnoticed. Each effective text is the identifier of one area and one
sequence value, which a maker that stands there mints, and no placeholder is effective.
-/

namespace SchemaGraph.Identifier

variable {c : Char} {text payload : List Char} {id : String} {n sum sum' place : Nat}

/-! ## The sum of digits -/

theorem digitSum?_cons_eq_some_iff : digitSum? (c :: text) = some sum ↔
    ∃ n later, digitValue? c = some n ∧ digitSum? text = some later ∧ n + later = sum := by
  rw [digitSum?]
  cases digitValue? c with
  | none => simp
  | some n =>
      cases digitSum? text with
      | none => simp
      | some later => simp

theorem isDigit_of_digitSum? (summed : digitSum? text = some sum) :
    ∀ c ∈ text, isDigit c = true := by
  induction text generalizing sum with
  | nil => exact List.forall_mem_nil _
  | cons c rest ih =>
      obtain ⟨n, later, value, total, _⟩ := digitSum?_cons_eq_some_iff.mp summed
      exact List.forall_mem_cons.mpr ⟨by rw [isDigit, value]; rfl, ih total⟩

/-- When one character is replaced, the sums differ as the values of the two do. -/
theorem digitSum?_set (inside : place < text.length) (summed : digitSum? text = some sum)
    (changed : digitSum? (text.set place c) = some sum') :
    ∃ m n, digitValue? text[place] = some m ∧ digitValue? c = some n ∧ sum + n = sum' + m := by
  induction text generalizing place sum sum' with
  | nil => cases inside
  | cons first rest ih =>
      obtain ⟨m, later, value, total, rfl⟩ := digitSum?_cons_eq_some_iff.mp summed
      cases place with
      | zero =>
          obtain ⟨n, later', newValue, sameTotal, rfl⟩ := digitSum?_cons_eq_some_iff.mp changed
          obtain rfl : later = later' := Option.some_inj.mp (total.symm.trans sameTotal)
          exact ⟨m, n, value, newValue, by omega⟩
      | succ place =>
          obtain ⟨m', later', sameValue, newTotal, rfl⟩ := digitSum?_cons_eq_some_iff.mp changed
          obtain rfl : m = m' := Option.some_inj.mp (value.symm.trans sameValue)
          obtain ⟨old, new, oldValue, newValue, balance⟩ :=
            ih (Nat.lt_of_succ_lt_succ inside) total newTotal
          exact ⟨old, new, oldValue, newValue, by omega⟩

/-! ## The check digit -/

theorem checkDigit?_eq_some_iff : checkDigit? payload = some c ↔
    payload.length = 2 * partLength ∧ ∃ sum, digitSum? payload = some sum ∧
      digitChar (sum % 32) = c := by
  rw [checkDigit?]
  split
  · rename_i length
    simp [length]
  · rename_i otherLength
    simp [otherLength]

theorem isEffective_iff : isEffective id = true ↔
    ∃ payload sum, payload.length = 2 * partLength ∧ digitSum? payload = some sum ∧
      id.toList = digitChar (sum % 32) :: payload := by
  rw [isEffective]
  cases id.toList with
  | nil => simp
  | cons check payload =>
      simp only [decide_eq_true_eq, checkDigit?_eq_some_iff, List.cons.injEq]
      constructor
      · rintro ⟨length, sum, total, isCheck⟩
        exact ⟨payload, sum, length, total, isCheck.symm, rfl⟩
      · rintro ⟨_, sum, length, total, isCheck, rfl⟩
        exact ⟨length, sum, total, isCheck.symm⟩

theorem isDigit_of_isEffective (effective : isEffective id = true) :
    ∀ c ∈ id.toList, isDigit c = true := by
  obtain ⟨payload, sum, _, total, letters⟩ := isEffective_iff.mp effective
  rw [letters]
  exact List.forall_mem_cons.mpr
    ⟨isDigit_digitChar (Nat.mod_lt sum (by decide)), isDigit_of_digitSum? total⟩

/-- An effective text has as many bytes as characters, so its length is told by either. -/
theorem length_bytes_of_isEffective (effective : isEffective id = true) :
    (bytes id.toList).length = id.toList.length := by
  obtain ⟨n, read⟩ := exists_number? (isDigit_of_isEffective effective)
  have length := length_bytes_digits id.toList.length n
  rwa [(number?_eq_some_iff.mp read).2] at length

/-- A text that differs from an effective one in a single character is not effective. -/
theorem not_isEffective_set (effective : isEffective id = true) (inside : place < id.toList.length)
    (different : c ≠ id.toList[place]) :
    isEffective (String.ofList (id.toList.set place c)) = false := by
  rw [Bool.eq_false_iff]
  intro stillEffective
  obtain ⟨payload, sum, length, total, letters⟩ := isEffective_iff.mp effective
  obtain ⟨payload', sum', _, newTotal, newLetters⟩ := isEffective_iff.mp stillEffective
  simp only [letters] at inside different newLetters
  rw [String.toList_ofList] at newLetters
  cases place with
  | zero =>
      -- the others are the same, and so is the digit that they ask for
      obtain ⟨isCheck, rfl⟩ := List.cons.inj newLetters
      obtain rfl : sum = sum' := Option.some_inj.mp (total.symm.trans newTotal)
      exact different isCheck
  | succ place =>
      -- the check digit is the same, so the replaced digits have equal values modulo 32
      obtain ⟨sameCheck, rfl⟩ := List.cons.inj newLetters
      obtain ⟨m, n, value, newValue, balance⟩ :=
        digitSum?_set (Nat.lt_of_succ_lt_succ inside) total newTotal
      have sameRest : sum % 32 = sum' % 32 := digitChar_injective
        (Nat.mod_lt _ (by decide)) (Nat.mod_lt _ (by decide)) sameCheck
      have small := (digitValue?_eq_some_iff.mp value).1
      have smallToo := (digitValue?_eq_some_iff.mp newValue).1
      obtain rfl : m = n := by omega
      exact different (digitValue?_injective newValue value)

/-- The last digit of the second identifier of all, replaced by a letter of two bytes. -/
theorem accent_detected : isEffective "1000000000000000000000001" = true ∧
    isEffective "100000000000000000000000é" = false := by
  have effective : isEffective "1000000000000000000000001" = true := by decide +kernel
  have inside : 24 < "1000000000000000000000001".toList.length := by decide +kernel
  have different : 'é' ≠ "1000000000000000000000001".toList[24] := by decide +kernel +revert
  exact ⟨effective, not_isEffective_set effective inside different⟩

/-! ## Effective texts are minted -/

theorem exists_identifier (effective : isEffective id = true) :
    ∃ area sequence, isArea area = true ∧ sequence < sequenceLimit ∧
      identifier area sequence = id := by
  obtain ⟨payload, sum, length, total, letters⟩ := isEffective_iff.mp effective
  have allDigits := isDigit_of_digitSum? total
  have frontLength : (payload.take partLength).length = partLength := by
    rw [List.length_take, length]
    rfl
  have backLength : (payload.drop partLength).length = partLength := by
    rw [List.length_drop, length]
    rfl
  have backDigits : ∀ c ∈ payload.drop partLength, isDigit c = true := fun c inside =>
    allDigits c (List.mem_of_mem_drop inside)
  obtain ⟨sequence, read⟩ := exists_number? backDigits
  obtain ⟨below, written⟩ := number?_eq_some_iff.mp read
  rw [backLength] at below written
  refine ⟨String.ofList (payload.take partLength), sequence, ?_, sequenceLimit_eq ▸ below, ?_⟩
  · rw [isArea_iff, String.toList_ofList]
    exact ⟨frontLength, fun c inside => allDigits c (List.mem_of_mem_take inside)⟩
  · have check := checkDigit?_eq_some_iff.mpr ⟨length, sum, total, rfl⟩
    rw [← String.toList_inj, toList_identifier, String.toList_ofList, written,
      List.take_append_drop, withCheckDigit, check, letters]
    rfl

theorem toList_placeholder (n : Nat) :
    (placeholder n).toList = 't' :: '_' :: Nat.toDigits 10 n :=
  String.toList_ofList

theorem isPlaceholder_placeholder (n : Nat) : isPlaceholder (placeholder n) = true := by
  have some : Nat.toDigits 10 n ≠ [] := Nat.toDigits_ne_nil
  have decimal : ∀ c ∈ Nat.toDigits 10 n, c.isDigit = true := fun c inside =>
    Nat.isDigit_of_mem_toDigits (by decide) (by decide) inside
  rw [isPlaceholder, toList_placeholder]
  simpa [some] using decimal

/-- A placeholder has a character that is no digit. -/
theorem not_isEffective_of_isPlaceholder (isTemporary : isPlaceholder id = true) :
    isEffective id = false := by
  rw [Bool.eq_false_iff]
  intro effective
  rw [isPlaceholder] at isTemporary
  split at isTemporary
  · rename_i number letters
    have noDigit : isDigit '_' = false := by decide
    have digit := isDigit_of_isEffective effective '_' (by rw [letters]; simp)
    rw [noDigit] at digit
    cases digit
  · cases isTemporary

namespace Maker

/-- A maker that stands at a sequence value of a valid area. -/
def InArea (m : Maker) : Prop := isArea m.area = true ∧ m.sequence < sequenceLimit

theorem isEffective_of_next {m : Maker} (valid : isArea m.area = true)
    (called : m.next.1 = .ok id) : isEffective id = true := by
  have outcome : m.next = (.ok id, m.next.2) := Prod.ext called rfl
  rcases next_eq_ok outcome with ⟨_, rfl, _⟩ | ⟨_, drawnValid, rfl, _⟩
  · exact isEffective_identifier valid m.sequence
  · exact isEffective_identifier drawnValid 0

/-- A text is effective exactly when there is a valid area with a sequence value at which every
    maker mints the text, and no maker mints it at another. No maker ever mints a placeholder:
    these are recognised as such and are not effective. -/
theorem effective_iff_mintable :
    (∀ id, isEffective id = true ↔ ∃ area sequence,
      isArea area = true ∧ sequence < sequenceLimit ∧
        ∀ m : Maker, m.area = area → m.sequence = sequence → m.next.1 = .ok id) ∧
    (∀ id, ∀ m m' : Maker, m.InArea → m'.InArea → m.next.1 = .ok id → m'.next.1 = .ok id →
      m.area = m'.area ∧ m.sequence = m'.sequence) ∧
    (∀ id, ¬ (isEffective id = true ∧ isPlaceholder id = true)) ∧
    ∀ m : Maker, isPlaceholder m.nextPlaceholder.1 = true ∧
      ∀ m' : Maker, isArea m'.area = true → m'.next.1 ≠ .ok m.nextPlaceholder.1 := by
  refine ⟨fun id => ⟨fun effective => ?_, ?_⟩, fun id m m' inside insideToo called calledToo => ?_,
    ?_, fun m => ?_⟩
  · obtain ⟨area, sequence, valid, below, rfl⟩ := exists_identifier effective
    refine ⟨area, sequence, valid, below, ?_⟩
    rintro m rfl rfl
    rw [next_within below]
  · rintro ⟨area, sequence, valid, below, mints⟩
    exact isEffective_of_next (m := ⟨.countingFrom 0, area, sequence, 0⟩) valid
      (mints _ rfl rfl)
  · rw [next_within inside.2] at called
    rw [next_within insideToo.2, ← called] at calledToo
    have made := madeOf_identifier inside.1 inside.2
    rw [← Except.ok.inj calledToo] at made
    exact made.unique (madeOf_identifier insideToo.1 insideToo.2)
  · rintro id ⟨effective, isTemporary⟩
    rw [not_isEffective_of_isPlaceholder isTemporary] at effective
    cases effective
  · have isTemporary : isPlaceholder m.nextPlaceholder.1 = true :=
      isPlaceholder_placeholder m.placeholders
    refine ⟨isTemporary, fun m' valid called => ?_⟩
    have effective := isEffective_of_next valid called
    rw [not_isEffective_of_isPlaceholder isTemporary] at effective
    cases effective

end Maker

end SchemaGraph.Identifier
