import SchemaGraph.Proofs.Entity.Ends
import SchemaGraph.Proofs.Store.Adding

/-! # Groups of events

The groups of a store list its events by type. Which events an operation leaves, and under
which keys, is all that the groups depend on: neither the nodes nor the adjacency have a part
in it.
-/

namespace SchemaGraph.Store

/-- Every event stands under its own key, and is listed in the group of its type. -/
structure Grouped (s : Store) : Prop where
  keyed : s.events.Keyed
  groups : s.groups.Mirrors s.events.entries.entries

variable {s t : Store}

theorem Consistent.grouped (h : s.Consistent) : s.Grouped :=
  ⟨h.events.keys, h.groups⟩

namespace Grouped

theorem empty : Store.empty.Grouped :=
  ⟨.empty, .empty⟩

/-- Nodes and adjacency have nothing to do with it. -/
theorem congr (h : s.Grouped) (events : t.events = s.events) (groups : t.groups = s.groups) :
    t.Grouped :=
  ⟨events ▸ h.keyed, events ▸ groups ▸ h.groups⟩

theorem removeEventAt (h : s.Grouped) (key : String) : (s.removeEventAt key).2.Grouped := by
  cases found : s.events.get? key with
  | none =>
      rw [removeEventAt_of_absent found]
      exact h
  | some e =>
      obtain ⟨typeName, ofType⟩ := Event.typeName_of_logicKey? (h.keyed found)
      have inside := (s.events.mem_entries_iff key e).mpr found
      refine ⟨?_, ?_⟩
      · rw [events_removeEventAt]
        exact h.keyed.remove key
      · rw [entries_removeEventAt, removeEventAt_of_held found]
        simp only [Store.unindex, ofType]
        exact h.groups.unfile s.events.entries.distinct inside ofType

theorem withEvent (h : s.Grouped) {key : String} {e : Event}
    (own : Entity.logicKey? e = some key) : (s.withEvent key e).Grouped := by
  obtain ⟨typeName, ofType⟩ := Event.typeName_of_logicKey? own
  refine ⟨(h.removeEventAt key).keyed.put own, ?_⟩
  · rw [entries_withEvent, ← entries_removeEventAt]
    simp only [Store.withEvent, Store.index, ofType]
    refine (h.removeEventAt key).groups.file ofType ?_
    rw [entries_removeEventAt]
    exact Entries.not_mem_keys_without key s.events.entries.entries

theorem clearEvents (s : Store) : s.clearEvents.Grouped :=
  ⟨.empty, .empty⟩

theorem setOperation (h : s.Grouped) (operation : Operation) :
    (s.setOperation operation).Grouped := by
  refine ⟨?_, h.groups.congr fun typeName => ?_⟩
  · exact h.keyed.mapValues fun e => Entity.logicKey?_setOperation e operation
  · let renew (entry : String × Event) := (entry.1, Entity.setOperation entry.2 operation)
    have sameType : ∀ entry ∈ s.events.entries.entries,
        (renew entry).2.core.typeName = entry.2.core.typeName := fun _ _ => rfl
    exact keysOfType_map sameType typeName

end Grouped

/-- What is taken in has the key under which it comes to stand. -/
theorem logicKey?_of_verdict {ε : Type} [Entity ε] [LawfulEntity ε] {c : Catalog}
    {shelf : Shelf ε} {e taken : ε} {key : String} {overwrite : Bool}
    (decided : shelf.verdict c e overwrite = .ok (some (key, taken))) :
    Entity.logicKey? taken = some key := by
  obtain ⟨keyed, _, admission⟩ := Shelf.verdict_eq_some_iff.mp decided
  rw [Entity.logicKey?_of_stamped (Shelf.admitted_eq_ok_iff.mp admission).1, keyed]

theorem Grouped.addEvent (h : s.Grouped) (c : Catalog) (e : Event) (overwrite : Bool) :
    (s.addEvent c e overwrite).2.Grouped := by
  rw [addEvent_eq]
  split
  · exact h
  · exact h
  · rename_i key taken decided
    exact h.withEvent ((Event.logicKey?_withMembership c taken).trans
      (logicKey?_of_verdict decided))

end SchemaGraph.Store
