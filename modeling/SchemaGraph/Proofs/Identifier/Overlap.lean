import Mathlib.Data.Set.Defs
import SchemaGraph.Proofs.Identifier.Counting

/-! # Starting areas that overlap

A starting area is written in twelve digits, and a number that needs more loses its leading ones.
So the identifiers of two starting areas are the same when their numbers differ by a multiple of
`2 ^ 60`, and otherwise no identifier is from both.
-/

namespace SchemaGraph.Identifier

variable {id : String} {first other : Nat}

theorem areaText_eq_areaText_iff :
    areaText first = areaText other ↔ first % sequenceLimit = other % sequenceLimit := by
  rw [areaText, areaText, String.ofList_inj, digits_eq_digits_iff, sequenceLimit_eq]

theorem number?_areaText (first : Nat) :
    number? (areaText first).toList = some (first % sequenceLimit) := by
  rw [areaText, String.toList_ofList, number?_digits, sequenceLimit_eq]

namespace Maker

variable {start m : Maker}

/-- The makers that a maker turns into while it is used: it is called, set to any sequence value,
    also one before the current one, and asked for placeholders. -/
inductive Becomes (start : Maker) : Maker → Prop
  | begin : Becomes start start
  | called {m : Maker} : Becomes start m → Becomes start m.next.2
  | placed {m : Maker} (sequence : Nat) : Becomes start m → Becomes start (m.startingAt sequence)
  | stoodIn {m : Maker} : Becomes start m → Becomes start m.nextPlaceholder.2

/-- The identifiers that a maker over the areas counted up from a number can mint before it draws
    another area. -/
def firstArea (first : Nat) : Set String :=
  {id | ∃ start m, ofAllocator (.countingFrom first) = .ok start ∧ Becomes start m ∧
    m.next.1 = .ok id ∧ m.next.2.allocator.drawn = start.allocator.drawn}

/-- A maker later on has drawn no less, and is in the same area if it has drawn nothing more. -/
structure Later (m later : Maker) : Prop where
  drawn : m.allocator.drawn ≤ later.allocator.drawn
  area : later.allocator.drawn = m.allocator.drawn → later.area = m.area

theorem Later.trans {later last : Maker} (h : Later m later) (behind : Later later last) :
    Later m last := by
  refine ⟨Nat.le_trans h.drawn behind.drawn, fun undrawn => ?_⟩
  have between : later.allocator.drawn = m.allocator.drawn :=
    Nat.le_antisymm (undrawn ▸ behind.drawn) h.drawn
  exact (behind.area (undrawn.trans between.symm)).trans (h.area between)

theorem later_next (m : Maker) : Later m m.next.2 := by
  rcases m.next_cases with ⟨_, outcome⟩ | ⟨_, _, outcome⟩ | ⟨_, _, outcome⟩
  · rw [outcome]
    exact ⟨Nat.le_refl _, fun _ => rfl⟩
  · rw [outcome]
    exact ⟨Nat.le_succ _, fun undrawn => absurd undrawn (Nat.succ_ne_self _)⟩
  · rw [outcome]
    exact ⟨Nat.le_succ _, fun _ => rfl⟩

theorem Becomes.later (h : Becomes start m) : Later start m := by
  induction h with
  | begin => exact ⟨Nat.le_refl _, fun _ => rfl⟩
  | called _ ih => exact ih.trans (later_next _)
  -- the other two leave the allocator and the area alone
  | placed sequence _ ih => exact ⟨ih.drawn, ih.area⟩
  | stoodIn _ ih => exact ⟨ih.drawn, ih.area⟩

/-- In the first area there is one identifier for each sequence value. -/
theorem mem_firstArea_iff : id ∈ firstArea first ↔
    ∃ sequence < sequenceLimit, identifier (areaText first) sequence = id := by
  constructor
  · rintro ⟨start, m, built, becomes, called, undrawn⟩
    obtain rfl := Except.ok.inj ((ofAllocator_countingFrom first).symm.trans built)
    rcases next_eq_ok (Prod.ext called rfl) with ⟨inside, rfl, _⟩ | ⟨usedUp, _⟩
    · rw [next_within inside] at undrawn
      rw [becomes.later.area undrawn]
      exact ⟨m.sequence, inside, rfl⟩
    · -- a call that goes to another area draws it
      rw [draws_of_usedUp usedUp] at undrawn
      exact absurd undrawn (Nat.ne_of_gt (Nat.lt_succ_of_le becomes.later.drawn))
  · rintro ⟨sequence, inside, rfl⟩
    refine ⟨_, _, ofAllocator_countingFrom first, .placed sequence .begin, ?_⟩
    rw [next_within inside]
    exact ⟨rfl, rfl⟩

theorem areaText_eq_of_mem (fromFirst : id ∈ firstArea first) (fromOther : id ∈ firstArea other) :
    areaText first = areaText other := by
  obtain ⟨sequence, inside, rfl⟩ := mem_firstArea_iff.mp fromFirst
  obtain ⟨sequence', insideToo, same⟩ := mem_firstArea_iff.mp fromOther
  have made := madeOf_identifier (isArea_areaText first) inside
  have madeToo := madeOf_identifier (isArea_areaText other) insideToo
  rw [same] at madeToo
  exact (made.unique madeToo).1

theorem firstArea_nonempty (first : Nat) : (firstArea first).Nonempty :=
  ⟨_, mem_firstArea_iff.mpr ⟨0, by decide, rfl⟩⟩

theorem firstArea_eq_of_areaText (same : areaText first = areaText other) :
    firstArea first = firstArea other := by
  ext id
  rw [mem_firstArea_iff, mem_firstArea_iff, same]

theorem firstArea_apart_iff : (∀ id ∈ firstArea first, id ∉ firstArea other) ↔
    areaText first ≠ areaText other := by
  constructor
  · intro apart same
    obtain ⟨id, minted⟩ := firstArea_nonempty first
    exact apart id minted (firstArea_eq_of_areaText same ▸ minted)
  · intro different id fromFirst fromOther
    exact different (areaText_eq_of_mem fromFirst fromOther)

/-- Every number is taken as a starting area, and its text writes the number without what is above
    twelve digits. Two starting areas have the same text exactly when their numbers are the same
    modulo `2 ^ 60`; then they have all identifiers in common, and otherwise none. -/
theorem starting_areas_overlap_iff (a b : UInt64) :
    (∃ start, ofAllocator (.countingFrom a.toNat) = .ok start ∧
      start.area = (Allocator.countingFrom a.toNat).draw.1 ∧
      number? start.area.toList = some (a.toNat % 2 ^ 60)) ∧
    ((Allocator.countingFrom a.toNat).draw.1 = (Allocator.countingFrom b.toNat).draw.1 ↔
      a.toNat % 2 ^ 60 = b.toNat % 2 ^ 60) ∧
    ((∀ id ∈ firstArea a.toNat, id ∉ firstArea b.toNat) ↔
      a.toNat % 2 ^ 60 ≠ b.toNat % 2 ^ 60) ∧
    (firstArea a.toNat = firstArea b.toNat ↔ a.toNat % 2 ^ 60 = b.toNat % 2 ^ 60) := by
  have limit : (2 : Nat) ^ 60 = sequenceLimit := by decide
  rw [limit]
  have sameText : areaText a.toNat = areaText b.toNat ↔
      a.toNat % sequenceLimit = b.toNat % sequenceLimit := areaText_eq_areaText_iff
  refine ⟨⟨_, ofAllocator_countingFrom a.toNat, rfl, number?_areaText a.toNat⟩, sameText,
    firstArea_apart_iff.trans (not_congr sameText), fun same => sameText.mp ?_,
    fun same => firstArea_eq_of_areaText (sameText.mpr same)⟩
  obtain ⟨id, minted⟩ := firstArea_nonempty a.toNat
  exact areaText_eq_of_mem minted (same ▸ minted)

/-- The starting area `2 ^ 60` hands out the very first identifier of area 0 once more. -/
theorem shared_with_area_zero :
    "0000000000000000000000000" ∈ firstArea (0 : UInt64).toNat ∧
    "0000000000000000000000000" ∈ firstArea (1152921504606846976 : UInt64).toNat ∧
    ¬ ∀ a b : UInt64, a ≠ b → ∀ id ∈ firstArea a.toNat, id ∉ firstArea b.toNat := by
  have positive : 0 < sequenceLimit := by decide
  have ofZero : "0000000000000000000000000" ∈ firstArea (0 : UInt64).toNat :=
    mem_firstArea_iff.mpr ⟨0, positive, by decide +kernel⟩
  have ofOther : "0000000000000000000000000" ∈ firstArea (1152921504606846976 : UInt64).toNat :=
    mem_firstArea_iff.mpr ⟨0, positive, by decide +kernel⟩
  exact ⟨ofZero, ofOther, fun apart => apart _ _ (by decide) _ ofZero ofOther⟩

end Maker

end SchemaGraph.Identifier
