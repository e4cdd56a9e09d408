import SchemaGraph.Proofs.Store.Shelf
import SchemaGraph.Store.Contents

/-! # What adding does

Nodes and events are added by one rule. The shelf comes to a verdict on the entity, and the
store follows it: it takes the entity in under its key, or it stays as it was.
-/

namespace SchemaGraph

namespace Shelf

variable {ε : Type} [Entity ε]

/-- What a shelf decides about an entity that is to be added: it is taken in under a key with
    its present fingerprint, it is left out, or its fingerprint is at fault. -/
def verdict (c : Catalog) (s : Shelf ε) (e : ε) (overwrite : Bool) :
    Except StoreError (Option (String × ε)) :=
  match Entity.logicKey? e with
  | none => .ok none
  | some key =>
      if !overwrite && s.contains key then .ok none
      else (s.admitted c key key e).map fun taken => some (key, taken)

/-- The fingerprint of an effective entity cannot be computed, or another one holds it. -/
def Refuses (c : Catalog) (s : Shelf ε) (e : ε) : Prop :=
  ∃ key, Entity.logicKey? e = some key ∧
    ((∃ cause, Entity.computeFingerprint c e = .error cause) ∨
      ∃ fingerprint holder, Entity.computeFingerprint c e = .ok (some fingerprint) ∧
        s.holders.get? fingerprint = some holder ∧ holder ≠ key)

variable {c : Catalog} {s : Shelf ε} {e taken : ε} {owner key : String} {overwrite : Bool}

/-- Nothing is wrong with the fingerprint of an entity that is admitted. -/
theorem exists_admitted_iff : (∃ taken, s.admitted c owner key e = .ok taken) ↔
    ∃ f, Entity.computeFingerprint c e = .ok f ∧ ∀ fingerprint holder, f = some fingerprint →
      s.holders.get? fingerprint = some holder → holder = owner := by
  simp only [admitted_eq_ok_iff, Entity.stamped_eq_ok_iff]
  constructor
  · rintro ⟨_, ⟨f, computed, rfl⟩, free⟩
    exact ⟨f, computed, by simpa using free⟩
  · rintro ⟨f, computed, free⟩
    exact ⟨_, ⟨f, computed, rfl⟩, by simpa using free⟩

theorem refuses_iff (keyed : Entity.logicKey? e = some key) :
    s.Refuses c e ↔ ¬ ∃ taken, s.admitted c key key e = .ok taken := by
  rw [exists_admitted_iff]
  simp only [Refuses, keyed, Option.some_inj, exists_eq_left']
  cases computed : Entity.computeFingerprint c e with
  | error cause => simp
  | ok f => simp

theorem verdict_eq_some_iff : s.verdict c e overwrite = .ok (some (key, taken)) ↔
    Entity.logicKey? e = some key ∧ (overwrite = false → s.contains key = false) ∧
      s.admitted c key key e = .ok taken := by
  rw [verdict]
  cases keyed : Entity.logicKey? e with
  | none => simp
  | some own =>
      simp only [Option.some_inj]
      constructor
      · intro decided
        split at decided
        · cases decided
        · rename_i free
          cases admission : s.admitted c own own e with
          | error cause =>
              rw [admission] at decided
              cases decided
          | ok given =>
              rw [admission] at decided
              cases decided
              exact ⟨rfl, by simpa using free, admission⟩
      · rintro ⟨rfl, free, admission⟩
        rw [if_neg (by simpa using free), admission]
        rfl

theorem verdict_eq_none_iff : s.verdict c e overwrite = .ok none ↔
    Entity.logicKey? e = none ∨
      overwrite = false ∧ ∃ key, Entity.logicKey? e = some key ∧ s.contains key = true := by
  rw [verdict]
  cases keyed : Entity.logicKey? e with
  | none => simp
  | some own =>
      simp only [reduceCtorEq, Option.some_inj, exists_eq_left', false_or]
      split
      · rename_i inTheWay
        simpa using inTheWay
      · rename_i free
        cases s.admitted c own own e <;> simpa [Except.map] using free

/-- Where nothing is in the way, only the fingerprint can be at fault. -/
theorem verdict_eq_error_iff : (∃ cause, s.verdict c e overwrite = .error cause) ↔
    (overwrite = false → ∀ key, Entity.logicKey? e = some key → s.contains key = false) ∧
      s.Refuses c e := by
  rw [verdict]
  cases keyed : Entity.logicKey? e with
  | none => simp [Refuses, keyed]
  | some own =>
      rw [refuses_iff keyed]
      simp only [Option.some_inj, forall_eq']
      split
      · rename_i inTheWay
        have inTheWay : overwrite = false ∧ s.contains own = true := by simpa using inTheWay
        simp [inTheWay]
      · rename_i free
        cases s.admitted c own own e with
        | error cause => simpa [Except.map] using free
        | ok taken => simp [Except.map]

/-- What is in the way may be overwritten. -/
theorem verdict_overwriting_eq_error_iff :
    (∃ cause, s.verdict c e true = .error cause) ↔ s.Refuses c e := by
  rw [verdict_eq_error_iff]
  simp

end Shelf

namespace Store

/-- The store with a node that takes the place of any other one under its key. -/
def withNode (s : Store) (key : String) (n : Node) : Store :=
  { s with nodes := (s.nodes.remove key).2.put key n }

/-- The store with an event that takes the place of any other one under its key. -/
def withEvent (s : Store) (key : String) (e : Event) : Store :=
  let s := (s.removeEventAt key).2
  { s.index key e with events := s.events.put key e }

variable {c : Catalog} {s : Store} {overwrite : Bool}

theorem addNode_eq (c : Catalog) (s : Store) (n : Node) (overwrite : Bool) :
    s.addNode c n overwrite =
      match s.nodes.verdict c n overwrite with
      | .error cause => (.error cause, s)
      | .ok none => (.ok false, s)
      | .ok (some (key, taken)) => (.ok true, s.withNode key taken) := by
  rw [addNode, Shelf.verdict]
  cases Entity.logicKey? n with
  | none => rfl
  | some key =>
      by_cases inTheWay : (!overwrite && s.nodes.contains key) = true
      · simp only [if_pos inTheWay]
      · simp only [if_neg inTheWay]
        cases s.nodes.admitted c key key n <;> rfl

theorem addEvent_eq (c : Catalog) (s : Store) (e : Event) (overwrite : Bool) :
    s.addEvent c e overwrite =
      match s.events.verdict c e overwrite with
      | .error cause => (.error cause, s)
      | .ok none => (.ok false, s)
      | .ok (some (key, taken)) => (.ok true, s.withEvent key (taken.withMembership c)) := by
  rw [addEvent, Shelf.verdict]
  cases Entity.logicKey? e with
  | none => rfl
  | some key =>
      by_cases inTheWay : (!overwrite && s.events.contains key) = true
      · simp only [if_pos inTheWay]
      · simp only [if_neg inTheWay]
        cases s.events.admitted c key key e <;> rfl

/-! ## Removing what is in the way -/

theorem removeEventAt_of_absent {key : String} (absent : s.events.get? key = none) :
    (s.removeEventAt key).2 = s := by
  simp only [removeEventAt, Shelf.remove, absent]

theorem removeEventAt_of_held {key : String} {e : Event} (held : s.events.get? key = some e) :
    (s.removeEventAt key).2 = { s with events := (s.events.remove key).2 }.unindex key e := by
  simp only [removeEventAt, Shelf.remove, held]

theorem events_removeEventAt (s : Store) (key : String) :
    (s.removeEventAt key).2.events = (s.events.remove key).2 := by
  unfold Store.removeEventAt Shelf.remove
  cases s.events.get? key <;> rfl

theorem entries_removeEventAt (s : Store) (key : String) :
    (s.removeEventAt key).2.events.entries.entries =
      Entries.without key s.events.entries.entries := by
  rw [events_removeEventAt, Shelf.entries_remove]
  rfl

/-- A new event comes last, also when it takes the place of another one. -/
theorem entries_withEvent (s : Store) (key : String) (e : Event) :
    (s.withEvent key e).events.entries.entries =
      Entries.without key s.events.entries.entries ++ [(key, e)] := by
  have absent : (s.removeEventAt key).2.events.contains key = false := by
    rw [events_removeEventAt]
    exact s.events.contains_remove key
  rw [← entries_removeEventAt]
  exact OrderedMap.entries_insert_of_absent e absent

theorem get?_nodes_withNode (s : Store) (key other : String) (n : Node) :
    (s.withNode key n).nodes.get? other = if other = key then some n else s.nodes.get? other := by
  change ((s.nodes.remove key).2.entries.insert key n).get? other = _
  rw [OrderedMap.get?_insert]
  split
  · rfl
  · rename_i different
    exact (s.nodes.get?_remove key other).trans (if_neg different)

theorem get?_events_withEvent (s : Store) (key other : String) (e : Event) :
    (s.withEvent key e).events.get? other =
      if other = key then some e else s.events.get? other := by
  change ((s.removeEventAt key).2.events.entries.insert key e).get? other = _
  rw [OrderedMap.get?_insert, events_removeEventAt]
  split
  · rfl
  · rename_i different
    exact (s.events.get?_remove key other).trans (if_neg different)

end Store

end SchemaGraph
