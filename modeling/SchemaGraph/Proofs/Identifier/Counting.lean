import SchemaGraph.Proofs.Identifier.Digits
import SchemaGraph.Proofs.Identifier.Minting

/-! # Areas counted up

Read as one number, area and sequence value go up by one with every call of a maker whose areas
are counted up, also from one area to the next. So its identifiers are in the order in which they
are minted.
-/

namespace SchemaGraph.Identifier

/-- What stands behind the check digit of an identifier. -/
def payload (id : String) : List Char := id.toList.drop 1

/-- The identifier whose other digits write a number. -/
def numbered (number : Nat) : String :=
  String.ofList (withCheckDigit (digits (2 * partLength) number))

theorem payload_numbered (number : Nat) :
    payload (numbered number) = digits (2 * partLength) number := by
  rw [payload, numbered, String.toList_ofList, withCheckDigit, List.drop_one, List.tail_cons]

/-- The text of an area that is counted. -/
def areaText (area : Nat) : String := String.ofList (digits partLength area)

theorem isArea_areaText (area : Nat) : isArea (areaText area) = true := by
  rw [isArea_iff, areaText, String.toList_ofList]
  exact ⟨length_digits _ _, fun _ inside => isDigit_of_mem_digits inside⟩

/-- Area and sequence value write one number together. -/
theorem identifier_areaText {area sequence : Nat} (areaFits : area < sequenceLimit)
    (inside : sequence < sequenceLimit) :
    identifier (areaText area) sequence = numbered (area * sequenceLimit + sequence) := by
  rw [sequenceLimit_eq] at areaFits inside ⊢
  have read := number?_append_digits partLength partLength area sequence
  rw [Nat.mod_eq_of_lt areaFits, Nat.mod_eq_of_lt inside] at read
  have written := (number?_eq_some_iff.mp read).2
  rw [List.length_append, length_digits, length_digits, ← Nat.two_mul] at written
  rw [identifier, areaText, String.toList_ofList, numbered, written]

namespace Maker

/-- The maker behind so many calls. -/
def after (m : Maker) : Nat → Maker
  | 0 => m
  | calls + 1 => (m.after calls).next.2

/-- What a call gives, counted from zero. -/
def call (m : Maker) (k : Nat) : Except MintError String := (m.after k).next.1

/-- A maker over the areas that are counted up from the first one, and the number that it mints
    next; it may stand at the very end of an area. -/
structure Counts (first : Nat) (m : Maker) (number : Nat) : Prop where
  supply : m.allocator.supply = (Allocator.countingFrom first).supply
  within : m.sequence ≤ sequenceLimit
  area : ∃ area, m.area = areaText area ∧ first + m.allocator.drawn = area + 1 ∧
    area * sequenceLimit + m.sequence = number

variable {m : Maker} {first number sequence : Nat}

theorem ofAllocator_countingFrom (first : Nat) : ofAllocator (.countingFrom first) =
    .ok ⟨(Allocator.countingFrom first).draw.2, areaText first, 0, 0⟩ :=
  (ofAllocator_eq _).trans (if_pos (isArea_areaText first))

theorem counts_start (first : Nat) : ∃ start, ofAllocator (.countingFrom first) = .ok start ∧
    ∀ {sequence}, sequence ≤ sequenceLimit →
      Counts first (start.startingAt sequence) (first * sequenceLimit + sequence) := by
  refine ⟨_, ofAllocator_countingFrom first, fun within => ?_⟩
  exact ⟨rfl, within, first, rfl, rfl, rfl⟩

theorem Counts.next (h : Counts first m number) (room : number < sequenceLimit * sequenceLimit) :
    m.next.1 = .ok (numbered number) ∧ Counts first m.next.2 (number + 1) := by
  obtain ⟨area, isText, drawn, rfl⟩ := h.area
  rcases Nat.lt_or_ge m.sequence sequenceLimit with inside | usedUp
  · have areaFits : area < sequenceLimit :=
      Nat.lt_of_mul_lt_mul_right (Nat.lt_of_le_of_lt (Nat.le_add_right _ m.sequence) room)
    rw [next_within inside, isText, identifier_areaText areaFits inside]
    exact ⟨rfl, h.supply, inside, area, rfl, drawn, (Nat.add_assoc _ _ _).symm⟩
  · -- at the end of an area, the number is that of the start of the next one
    have full : m.sequence = sequenceLimit := Nat.le_antisymm h.within usedUp
    have nextArea : m.allocator.draw.1 = areaText (area + 1) := by
      rw [Allocator.draw, h.supply, ← drawn]
      rfl
    have atStart : area * sequenceLimit + m.sequence = (area + 1) * sequenceLimit := by
      rw [full, Nat.succ_mul]
    have positive : 0 < sequenceLimit := by decide
    rw [atStart] at room ⊢
    have minted := identifier_areaText (Nat.lt_of_mul_lt_mul_right room) positive
    rw [Nat.add_zero (_ * _)] at minted
    rw [next_beyond usedUp (nextArea ▸ isArea_areaText _), nextArea, minted]
    exact ⟨rfl, h.supply, positive, area + 1, rfl, congrArg (· + 1) drawn, rfl⟩

theorem Counts.after (h : Counts first m number) {calls : Nat}
    (room : number + calls ≤ sequenceLimit * sequenceLimit) :
    Counts first (m.after calls) (number + calls) := by
  induction calls with
  | zero => exact h
  | succ calls ih => exact ((ih (Nat.le_of_succ_le room)).next room).2

theorem Counts.call (h : Counts first m number) {k : Nat}
    (room : number + k < sequenceLimit * sequenceLimit) :
    m.call k = .ok (numbered (number + k)) :=
  ((h.after (Nat.le_of_lt room)).next room).1

theorem square_sequenceLimit : sequenceLimit * sequenceLimit = 32 ^ (2 * partLength) := by
  rw [sequenceLimit_eq, ← Nat.pow_add, Nat.two_mul]

/-- A maker whose areas are counted up from the first one, set to a sequence value of it or to its
    end: as long as 24 digits suffice, its calls succeed, and the digits behind the check digit
    are those of one number after the other, none left out, from that of the first area and the
    sequence value. As texts they come in this order by their bytes. -/
theorem counts_up {k : Nat} (positioned : sequence ≤ 2 ^ 60)
    (room : first * 2 ^ 60 + sequence + k < 2 ^ 120) :
    ∃ start, ofAllocator (.countingFrom first) = .ok start ∧ ∃ id : Nat → String,
      (∀ i ≤ k, (start.startingAt sequence).call i = .ok (id i) ∧ (payload (id i)).length = 24 ∧
        number? (payload (id i)) = some (first * 2 ^ 60 + sequence + i)) ∧
      ∀ i j, i < j → j ≤ k → bytes (payload (id i)) < bytes (payload (id j)) := by
  have limit : (2 : Nat) ^ 60 = sequenceLimit := by decide
  have square : (2 : Nat) ^ 120 = sequenceLimit * sequenceLimit := by decide
  rw [limit] at positioned room ⊢
  rw [square] at room
  obtain ⟨start, built, counts⟩ := counts_start first
  have fits {i : Nat} (early : i ≤ k) :
      first * sequenceLimit + sequence + i < sequenceLimit * sequenceLimit :=
    Nat.lt_of_le_of_lt (Nat.add_le_add_left early _) room
  refine ⟨start, built, fun i => numbered (first * sequenceLimit + sequence + i), fun i early => ?_,
    fun i j less early => ?_⟩
  · refine ⟨(counts positioned).call (fits early), ?_, ?_⟩
    · rw [payload_numbered, length_digits]
      rfl
    · rw [payload_numbered, number?_digits, ← square_sequenceLimit, Nat.mod_eq_of_lt (fits early)]
  · rw [payload_numbered, payload_numbered]
    exact bytes_digits_lt (Nat.add_lt_add_left less _) (square_sequenceLimit ▸ fits early)

/-- The last identifier of area 1 and the first of area 2. -/
theorem counts_up_across_areas : ∃ start, ofAllocator (.countingFrom 1) = .ok start ∧
    ∃ last first, (start.startingAt (2 ^ 60 - 1)).call 0 = .ok last ∧
      (start.startingAt (2 ^ 60 - 1)).call 1 = .ok first ∧
      number? (payload last) = some (2 ^ 61 - 1) ∧ number? (payload first) = some (2 ^ 61) ∧
      bytes (payload last) < bytes (payload first) := by
  have positioned : 2 ^ 60 - 1 ≤ 2 ^ 60 := by decide
  have room : 1 * 2 ^ 60 + (2 ^ 60 - 1) + 1 < 2 ^ 120 := by decide
  obtain ⟨start, built, id, counted, rising⟩ := counts_up positioned room
  obtain ⟨isLast, _, atEnd⟩ := counted 0 (by decide)
  obtain ⟨isFirst, _, behind⟩ := counted 1 (by decide)
  have larger := rising 0 1 (by decide) (by decide)
  exact ⟨start, built, id 0, id 1, isLast, isFirst, atEnd, behind, larger⟩

end Maker

end SchemaGraph.Identifier
