import SchemaGraph.Identifier.Lemmas
import SchemaGraph.Identifier.Maker

/-! # The layout of identifiers

The identifier of an area and a sequence value is effective, and both can be read off it. So
no two places in the areas share one.
-/

namespace SchemaGraph.Identifier

theorem sequenceLimit_eq : sequenceLimit = 32 ^ partLength := by decide

theorem isDigit_digitChar {n : Nat} (h : n < 32) : isDigit (digitChar n) = true := by
  rw [isDigit, digitValue?_digitChar h]
  rfl

theorem isDigit_of_mem_digits {count n : Nat} {c : Char} (inside : c ∈ digits count n) :
    isDigit c = true := by
  induction count generalizing n with
  | zero => simp [digits] at inside
  | succ count ih =>
      rw [digits] at inside
      rcases List.mem_append.mp inside with before | last
      · exact ih before
      · rw [List.mem_singleton.mp last]
        exact isDigit_digitChar (Nat.mod_lt n (by decide))

theorem exists_digitSum {text : List Char} (digits : ∀ c ∈ text, isDigit c = true) :
    ∃ sum, digitSum? text = some sum := by
  induction text with
  | nil => exact ⟨0, rfl⟩
  | cons c rest ih =>
      obtain ⟨isDigitHere, later⟩ := List.forall_mem_cons.mp digits
      obtain ⟨n, value⟩ := Option.isSome_iff_exists.mp isDigitHere
      obtain ⟨sum, total⟩ := ih later
      exact ⟨n + sum, by rw [digitSum?, value, total]⟩

theorem isArea_iff {text : String} :
    isArea text = true ↔ text.toList.length = partLength ∧ ∀ c ∈ text.toList, isDigit c = true := by
  simp [isArea]

/-- The identifier of an area and a sequence value. -/
def identifier (area : String) (sequence : Nat) : String :=
  String.ofList (withCheckDigit (area.toList ++ digits partLength sequence))

/-- The identifier is effective, and area and sequence value stand in it. -/
structure MadeOf (id area : String) (sequence : Nat) : Prop where
  effective : isEffective id = true
  area : (id.toList.drop 1).take partLength = area.toList
  sequence : number? (id.toList.drop (1 + partLength)) = some sequence

variable {area area' : String} {sequence sequence' : Nat}

theorem toList_identifier (area : String) (sequence : Nat) : (identifier area sequence).toList =
    withCheckDigit (area.toList ++ digits partLength sequence) :=
  String.toList_ofList

theorem isEffective_identifier (valid : isArea area = true) (sequence : Nat) :
    isEffective (identifier area sequence) = true := by
  obtain ⟨count, areaDigits⟩ := isArea_iff.mp valid
  have allDigits : ∀ c ∈ area.toList ++ digits partLength sequence, isDigit c = true := by
    intro c inside
    rcases List.mem_append.mp inside with inArea | inSequence
    · exact areaDigits c inArea
    · exact isDigit_of_mem_digits inSequence
  obtain ⟨sum, total⟩ := exists_digitSum allDigits
  have length : (area.toList ++ digits partLength sequence).length = 2 * partLength := by
    rw [List.length_append, count, length_digits, Nat.two_mul]
  have check : checkDigit? (area.toList ++ digits partLength sequence) =
      some (digitChar (sum % 32)) := by
    rw [checkDigit?, if_pos length, total, Option.map_some]
  rw [isEffective, toList_identifier, withCheckDigit, check]
  simp [check]

theorem madeOf_identifier (valid : isArea area = true) (inside : sequence < sequenceLimit) :
    MadeOf (identifier area sequence) area sequence where
  effective := isEffective_identifier valid sequence
  area := by
    rw [toList_identifier, withCheckDigit, List.drop_one, List.tail_cons,
      List.take_left' (isArea_iff.mp valid).1]
  sequence := by
    rw [toList_identifier, withCheckDigit, Nat.add_comm, List.drop_succ_cons,
      List.drop_left' (isArea_iff.mp valid).1, number?_digits,
      Nat.mod_eq_of_lt (sequenceLimit_eq ▸ inside)]

theorem MadeOf.unique {id : String} (one : MadeOf id area sequence)
    (other : MadeOf id area' sequence') : area = area' ∧ sequence = sequence' :=
  ⟨String.toList_inj.mp (one.area.symm.trans other.area),
    Option.some_inj.mp (one.sequence.symm.trans other.sequence)⟩

end SchemaGraph.Identifier
