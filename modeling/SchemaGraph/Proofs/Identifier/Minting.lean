import SchemaGraph.Proofs.Identifier.Layout

/-! # Runs of a maker

A maker goes through the areas that its allocator hands out, and through the sequence values
of each. Along a run the place that it stands at only moves on, so no identifier is minted
twice as long as no area is handed out twice.
-/

namespace SchemaGraph.Identifier

/-- Among the texts that are drawn up to some place no area occurs twice. -/
def Allocator.NoRepeats (a : Allocator) (upTo : Nat) : Prop :=
  ∀ i j, a.drawn ≤ i → i < j → j < upTo → isArea (a.supply i) = true → a.supply i ≠ a.supply j

namespace Maker

variable {m start next : Maker} {a : Allocator} {ids : List String}

/-! ## One call -/

theorem next_within (inside : m.sequence < sequenceLimit) :
    m.next = (.ok (identifier m.area m.sequence), { m with sequence := m.sequence + 1 }) := by
  rw [Maker.next, rollOver, if_pos inside]
  rfl

theorem next_beyond (usedUp : sequenceLimit ≤ m.sequence)
    (valid : isArea m.allocator.draw.1 = true) :
    m.next = (.ok (identifier m.allocator.draw.1 0),
      { m with allocator := m.allocator.draw.2, area := m.allocator.draw.1, sequence := 1 }) := by
  rw [Maker.next, rollOver, if_neg (Nat.not_lt.mpr usedUp)]
  simp only [valid, if_true]
  rfl

theorem next_failing (usedUp : sequenceLimit ≤ m.sequence)
    (invalid : isArea m.allocator.draw.1 = false) :
    m.next = (.error (.invalidArea m.allocator.draw.1),
      { m with allocator := m.allocator.draw.2 }) := by
  rw [Maker.next, rollOver, if_neg (Nat.not_lt.mpr usedUp)]
  simp [invalid]

/-- A call stays in the area, goes to the next one, or fails. -/
theorem next_cases (m : Maker) :
    (m.sequence < sequenceLimit ∧
      m.next = (.ok (identifier m.area m.sequence), { m with sequence := m.sequence + 1 })) ∨
    (sequenceLimit ≤ m.sequence ∧ isArea m.allocator.draw.1 = true ∧
      m.next = (.ok (identifier m.allocator.draw.1 0),
        { m with allocator := m.allocator.draw.2, area := m.allocator.draw.1, sequence := 1 })) ∨
    (sequenceLimit ≤ m.sequence ∧ isArea m.allocator.draw.1 = false ∧
      m.next = (.error (.invalidArea m.allocator.draw.1),
        { m with allocator := m.allocator.draw.2 })) := by
  rcases Nat.lt_or_ge m.sequence sequenceLimit with inside | usedUp
  · exact Or.inl ⟨inside, next_within inside⟩
  · cases valid : isArea m.allocator.draw.1 with
    | true => exact Or.inr (Or.inl ⟨usedUp, rfl, next_beyond usedUp valid⟩)
    | false => exact Or.inr (Or.inr ⟨usedUp, rfl, next_failing usedUp valid⟩)

theorem next_eq_ok {id : String} (called : m.next = (.ok id, next)) :
    (m.sequence < sequenceLimit ∧ id = identifier m.area m.sequence ∧
      next = { m with sequence := m.sequence + 1 }) ∨
    (sequenceLimit ≤ m.sequence ∧ isArea m.allocator.draw.1 = true ∧
      id = identifier m.allocator.draw.1 0 ∧
      next = { m with
        allocator := m.allocator.draw.2, area := m.allocator.draw.1, sequence := 1 }) := by
  rcases m.next_cases with ⟨inside, outcome⟩ | ⟨usedUp, valid, outcome⟩ | ⟨_, _, outcome⟩
  · obtain ⟨same, rfl⟩ := Prod.mk.inj (called.symm.trans outcome)
    exact Or.inl ⟨inside, Except.ok.inj same, rfl⟩
  · obtain ⟨same, rfl⟩ := Prod.mk.inj (called.symm.trans outcome)
    exact Or.inr ⟨usedUp, valid, Except.ok.inj same, rfl⟩
  · cases (Prod.mk.inj (called.symm.trans outcome)).1

theorem next_eq_error {e : MintError} (called : m.next = (.error e, next)) :
    sequenceLimit ≤ m.sequence ∧ isArea m.allocator.draw.1 = false ∧
      e = .invalidArea m.allocator.draw.1 ∧ next = { m with allocator := m.allocator.draw.2 } := by
  rcases m.next_cases with ⟨_, outcome⟩ | ⟨_, _, outcome⟩ | ⟨usedUp, invalid, outcome⟩
  · cases (Prod.mk.inj (called.symm.trans outcome)).1
  · cases (Prod.mk.inj (called.symm.trans outcome)).1
  · obtain ⟨same, rfl⟩ := Prod.mk.inj (called.symm.trans outcome)
    exact ⟨usedUp, invalid, Except.error.inj same, rfl⟩

/-- When the area is used up, every call asks the allocator. -/
theorem draws_of_usedUp (usedUp : sequenceLimit ≤ m.sequence) :
    m.next.2.allocator = m.allocator.draw.2 := by
  rcases m.next_cases with ⟨inside, _⟩ | ⟨_, _, outcome⟩ | ⟨_, _, outcome⟩
  · exact absurd inside (Nat.not_lt.mpr usedUp)
  · rw [outcome]
  · rw [outcome]

/-! ## Runs -/

/-- What calls have minted and the maker behind them, when the sequence is never set back. -/
inductive Run (start : Maker) : List String → Maker → Prop
  | begin : Run start [] start
  | minted {ids : List String} {m next : Maker} {id : String} : Run start ids m →
      m.next = (.ok id, next) → Run start (ids ++ [id]) next
  | failed {ids : List String} {m next : Maker} {e : MintError} : Run start ids m →
      m.next = (.error e, next) → Run start ids next
  | movedOn {ids : List String} {m : Maker} {sequence : Nat} : Run start ids m →
      m.sequence ≤ sequence → Run start ids (m.startingAt sequence)

/-- Which of the drawn areas an identifier is from, and its sequence value. -/
structure Place where
  draw : Nat
  sequence : Nat

def Place.Before (p q : Place) : Prop :=
  p.draw < q.draw ∨ p.draw = q.draw ∧ p.sequence < q.sequence

/-- The identifier at a place. -/
def Place.id (supply : Nat → String) (p : Place) : String :=
  identifier (supply p.draw) p.sequence

/-- A maker that has drawn from an allocator stands in an area of it, behind the places of all
    that it has minted. -/
structure Follows (a : Allocator) (places : List Place) (m : Maker) (draw : Nat) : Prop where
  supply : m.allocator.supply = a.supply
  drawn : a.drawn ≤ draw ∧ draw < m.allocator.drawn
  area : m.area = a.supply draw
  valid : isArea m.area = true
  rising : places.Pairwise Place.Before
  before : ∀ p ∈ places, p.Before ⟨draw, m.sequence⟩
  inside : ∀ p ∈ places, a.drawn ≤ p.draw ∧ p.sequence < sequenceLimit ∧
    isArea (a.supply p.draw) = true

variable {places : List Place} {draw : Nat}

theorem Place.Before.trans {p q r : Place} (first : p.Before q) (second : q.Before r) :
    p.Before r := by
  unfold Before at *
  omega

theorem Place.Before.draw_le {p q : Place} (h : p.Before q) : p.draw ≤ q.draw :=
  h.elim Nat.le_of_lt fun same => Nat.le_of_eq same.1

theorem ofAllocator_eq (a : Allocator) : ofAllocator a =
    if isArea (a.supply a.drawn) then .ok ⟨a.draw.2, a.supply a.drawn, 0, 0⟩
    else .error (.invalidArea (a.supply a.drawn)) := rfl

/-- A fresh maker is one over the areas that are counted up from zero. -/
theorem ofAllocator_countingFrom_zero : ofAllocator (.countingFrom 0) = .ok fresh := by
  rw [ofAllocator_eq, if_pos (by decide +kernel)]
  rfl

theorem follows_start (built : ofAllocator a = .ok start) : Follows a [] start a.drawn := by
  rw [ofAllocator_eq] at built
  split at built
  · rename_i valid
    cases built
    exact ⟨rfl, ⟨Nat.le_refl _, Nat.lt_succ_self _⟩, rfl, valid, .nil, by simp, by simp⟩
  · cases built

/-- A maker that has left a place behind the others follows them and this place. -/
theorem Follows.add (h : Follows a places m draw) {p : Place}
    (behind : ∀ q ∈ places, q.Before p) (inside : p.sequence < sequenceLimit)
    (supply : next.allocator.supply = a.supply)
    (drawn : a.drawn ≤ p.draw ∧ p.draw < next.allocator.drawn)
    (area : next.area = a.supply p.draw) (valid : isArea next.area = true)
    (left : p.sequence < next.sequence) : Follows a (places ++ [p]) next p.draw := by
  have here : p.Before ⟨p.draw, next.sequence⟩ := Or.inr ⟨rfl, left⟩
  refine ⟨supply, drawn, area, valid, ?_, fun q known => ?_, fun q known => ?_⟩
  · refine List.pairwise_append.mpr ⟨h.rising, List.pairwise_singleton _ _, ?_⟩
    intro q known r last
    rw [List.mem_singleton.mp last]
    exact behind q known
  · rcases List.mem_append.mp known with earlier | last
    · exact (behind q earlier).trans here
    · rw [List.mem_singleton.mp last]
      exact here
  · rcases List.mem_append.mp known with earlier | last
    · exact h.inside q earlier
    · rw [List.mem_singleton.mp last]
      exact ⟨drawn.1, inside, area ▸ valid⟩

theorem Follows.minted (h : Follows a places m draw) {id : String}
    (called : m.next = (.ok id, next)) :
    ∃ p : Place, id = p.id a.supply ∧ Follows a (places ++ [p]) next p.draw := by
  rcases next_eq_ok called with ⟨inside, rfl, rfl⟩ | ⟨usedUp, valid, rfl, rfl⟩
  · refine ⟨⟨draw, m.sequence⟩, by rw [Place.id, h.area], ?_⟩
    exact h.add h.before inside h.supply h.drawn h.area h.valid (Nat.lt_succ_self _)
  · have area : m.allocator.draw.1 = a.supply m.allocator.drawn := by
      rw [Allocator.draw, h.supply]
    refine ⟨⟨m.allocator.drawn, 0⟩, by rw [Place.id, area], ?_⟩
    have behind : ∀ q ∈ places, q.Before ⟨m.allocator.drawn, 0⟩ := fun q known =>
      (h.before q known).trans (Or.inl h.drawn.2)
    have inside : 0 < sequenceLimit := by decide
    exact h.add behind inside h.supply ⟨Nat.le_of_lt (Nat.lt_of_le_of_lt h.drawn.1 h.drawn.2),
      Nat.lt_succ_self _⟩ area valid (Nat.lt_succ_self 0)

theorem Follows.failed (h : Follows a places m draw) {e : MintError}
    (called : m.next = (.error e, next)) : Follows a places next draw := by
  obtain ⟨_, _, _, rfl⟩ := next_eq_error called
  exact ⟨h.supply, ⟨h.drawn.1, Nat.lt_succ_of_lt h.drawn.2⟩, h.area, h.valid, h.rising, h.before,
    h.inside⟩

theorem Follows.movedOn (h : Follows a places m draw) {sequence : Nat}
    (onward : m.sequence ≤ sequence) : Follows a places (m.startingAt sequence) draw := by
  refine ⟨h.supply, h.drawn, h.area, h.valid, h.rising, fun p known => ?_, h.inside⟩
  exact (h.before p known).imp_right fun same => ⟨same.1, Nat.lt_of_lt_of_le same.2 onward⟩

/-- All that a run mints is from places one behind the other. -/
theorem Run.follows (run : start.Run ids m) (built : ofAllocator a = .ok start) :
    ∃ places draw, ids = places.map (Place.id a.supply) ∧ Follows a places m draw := by
  induction run with
  | begin => exact ⟨[], _, rfl, follows_start built⟩
  | minted _ called ih =>
      obtain ⟨places, draw, rfl, follows⟩ := ih
      obtain ⟨p, rfl, later⟩ := follows.minted called
      exact ⟨places ++ [p], _, by rw [List.map_append, List.map_singleton], later⟩
  | failed _ called ih =>
      obtain ⟨places, draw, same, follows⟩ := ih
      exact ⟨places, draw, same, follows.failed called⟩
  | movedOn _ onward ih =>
      obtain ⟨places, draw, same, follows⟩ := ih
      exact ⟨places, draw, same, follows.movedOn onward⟩

theorem Follows.nodup (h : Follows a places m draw)
    (once : a.NoRepeats m.allocator.drawn) : (places.map (Place.id a.supply)).Nodup := by
  refine List.pairwise_map.mpr (h.rising.imp_of_mem fun {p q} knownP knownQ before same => ?_)
  obtain ⟨drawnP, insideP, validP⟩ := h.inside p knownP
  obtain ⟨_, insideQ, validQ⟩ := h.inside q knownQ
  have made := madeOf_identifier validP insideP
  have madeToo := madeOf_identifier validQ insideQ
  rw [Place.id, Place.id] at same
  rw [same] at made
  obtain ⟨sameArea, sameSequence⟩ := made.unique madeToo
  rcases before with earlier | ⟨_, less⟩
  · have drawnQ : q.draw < m.allocator.drawn :=
      Nat.lt_of_le_of_lt (h.before q knownQ).draw_le h.drawn.2
    exact once p.draw q.draw drawnP earlier drawnQ validP sameArea
  · exact Nat.ne_of_lt less sameSequence

/-- A successful call mints an effective identifier of the area and the sequence value that the
    maker then stands at: the current ones, or the start of the next area when these are used
    up. A call fails only when they are and the next text is no area; then only this text is
    gone, and the following call draws again. As long as no area is drawn twice, no identifier
    is minted twice. -/
theorem mints_once (built : ofAllocator a = .ok start) (run : start.Run ids m) :
    (∀ id next, m.next = (.ok id, next) → ∃ area sequence, MadeOf id area sequence ∧
      next.area = area ∧ next.sequence = sequence + 1 ∧
      (m.sequence < sequenceLimit ∧ area = m.area ∧ sequence = m.sequence ∧
          next.allocator = m.allocator ∨
        sequenceLimit ≤ m.sequence ∧ area = m.allocator.draw.1 ∧ sequence = 0 ∧
          next.allocator = m.allocator.draw.2)) ∧
    (∀ e next, m.next = (.error e, next) →
      sequenceLimit ≤ m.sequence ∧ isArea m.allocator.draw.1 = false ∧
        e = .invalidArea m.allocator.draw.1 ∧
        next = { m with allocator := m.allocator.draw.2 } ∧
        next.next.2.allocator = next.allocator.draw.2) ∧
    (a.NoRepeats m.allocator.drawn → ids.Nodup) := by
  obtain ⟨places, draw, rfl, follows⟩ := run.follows built
  refine ⟨fun id next called => ?_, fun e next called => ?_, follows.nodup⟩
  · rcases next_eq_ok called with ⟨inside, rfl, rfl⟩ | ⟨usedUp, valid, rfl, rfl⟩
    · exact ⟨_, _, madeOf_identifier follows.valid inside, rfl, rfl,
        Or.inl ⟨inside, rfl, rfl, rfl⟩⟩
    · have inside : 0 < sequenceLimit := by decide
      exact ⟨_, _, madeOf_identifier valid inside, rfl, rfl, Or.inr ⟨usedUp, rfl, rfl, rfl⟩⟩
  · obtain ⟨usedUp, invalid, rfl, rfl⟩ := next_eq_error called
    exact ⟨usedUp, invalid, rfl, rfl, draws_of_usedUp usedUp⟩

/-- Two areas with a text between them that is none. -/
def twoAreas : Allocator := .ofTexts ["000000000001", "bad", "000000000002"]

theorem noRepeats_twoAreas : twoAreas.NoRepeats 3 := by
  intro i j _ less upTo _
  have few : ∀ j < 3, ∀ i < j, twoAreas.supply i ≠ twoAreas.supply j := by decide +kernel
  exact few j upTo i less

/-- The last identifier of an area, a roll-over that fails, and the first of the next area. -/
theorem mints_once_across_areas : ∃ start m,
    ofAllocator twoAreas = .ok start ∧
    start.Run ["l000000000001vvvvvvvvvvvv", "2000000000002000000000000"] m ∧
    ["l000000000001vvvvvvvvvvvv", "2000000000002000000000000"].Nodup := by
  have built : ofAllocator twoAreas = .ok ⟨twoAreas.draw.2, "000000000001", 0, 0⟩ := by
    rw [ofAllocator_eq, if_pos (by decide +kernel)]
    rfl
  have last : identifier "000000000001" (sequenceLimit - 1) = "l000000000001vvvvvvvvvvvv" := by
    decide +kernel
  have first : identifier "000000000002" 0 = "2000000000002000000000000" := by decide +kernel
  have atStart : Run ⟨twoAreas.draw.2, "000000000001", 0, 0⟩ [] _ := .begin
  have atLast := atStart.movedOn (Nat.zero_le (sequenceLimit - 1))
  have usedUp := atLast.minted (next_within (by decide))
  have refused := usedUp.failed (next_failing (by decide) (by decide +kernel))
  have rolled := refused.minted (next_beyond (by decide) (by decide +kernel))
  change Run _ ([] ++ [identifier "000000000001" (sequenceLimit - 1)] ++
    [identifier "000000000002" 0]) _ at rolled
  rw [last, first] at rolled
  exact ⟨_, _, built, rolled, (mints_once built rolled).2.2 noRepeats_twoAreas⟩

end Maker

end SchemaGraph.Identifier
