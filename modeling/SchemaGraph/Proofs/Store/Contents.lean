import SchemaGraph.Proofs.Store.Grouping

/-! # Consistency of taking in and giving out

Each step that adds, removes or overwrites an entity keeps a store consistent, whatever the
catalog says by then, and whether it succeeds or fails.
-/

namespace SchemaGraph.Store

theorem Consistent.empty : Store.empty.Consistent where
  nodes := .empty
  events := .empty
  groups := .empty
  adjacency := .empty

/-- What a shelf takes in finds its key free, and nobody with its fingerprint, once the one that
    it replaces is gone. -/
theorem consistent_of_verdict {ε : Type} [Entity ε] [LawfulEntity ε] {c : Catalog}
    {shelf : Shelf ε} (h : shelf.Consistent) {e taken final : ε} {key : String} {overwrite : Bool}
    (decided : shelf.verdict c e overwrite = .ok (some (key, taken)))
    (sameKey : Entity.logicKey? final = Entity.logicKey? taken)
    (sameFingerprint : Entity.fingerprint final = Entity.fingerprint taken) :
    ((shelf.remove key).2.put key final).Consistent := by
  obtain ⟨_, _, admission⟩ := Shelf.verdict_eq_some_iff.mp decided
  refine (h.remove key).put (sameKey.trans (logicKey?_of_verdict decided))
    (shelf.contains_remove key) fun fingerprint carries => ?_
  exact Shelf.unheld_of_admitted h admission fingerprint (sameFingerprint ▸ carries)

/-! ## Nodes -/

theorem Consistent.withNodes {s : Store} (h : s.Consistent) {nodes : Shelf Node}
    (kept : nodes.Consistent) : Consistent { s with nodes } :=
  { h with nodes := kept }

theorem Consistent.removeNodeAt {s : Store} (h : s.Consistent) (key : String) :
    (s.removeNodeAt key).2.Consistent :=
  h.withNodes (h.nodes.remove key)

theorem Consistent.addNode {s : Store} (h : s.Consistent) (c : Catalog) (n : Node)
    (overwrite : Bool) : (s.addNode c n overwrite).2.Consistent := by
  rw [addNode_eq]
  split
  · exact h
  · exact h
  · rename_i decided
    exact h.withNodes (consistent_of_verdict h.nodes decided rfl rfl)

theorem Consistent.clearNodes {s : Store} (h : s.Consistent) : s.clearNodes.Consistent :=
  h.withNodes .empty

/-! ## Events -/

theorem nodes_removeEventAt (s : Store) (key : String) :
    (s.removeEventAt key).2.nodes = s.nodes := by
  unfold Store.removeEventAt Shelf.remove
  cases s.events.get? key <;> rfl

theorem Consistent.removeEventAt {s : Store} (h : s.Consistent) (key : String) :
    (s.removeEventAt key).2.Consistent := by
  refine ⟨?_, ?_, (h.grouped.removeEventAt key).groups, ?_⟩
  · rw [nodes_removeEventAt]
    exact h.nodes
  · rw [events_removeEventAt]
    exact h.events.remove key
  · rw [entries_removeEventAt]
    cases found : s.events.get? key with
    | none =>
        have absent := (s.events.entries.get?_eq_none_iff key).mp found
        rw [removeEventAt_of_absent found,
          Entries.without_of_absent ((s.events.entries.contains_eq_false_iff key).mp absent)]
        exact h.adjacency
    | some e =>
        rw [removeEventAt_of_held found]
        exact h.adjacency.unlink s.events.entries.distinct
          ((s.events.mem_entries_iff key e).mpr found)

theorem Consistent.addEvent {s : Store} (h : s.Consistent) (c : Catalog) (e : Event)
    (overwrite : Bool) : (s.addEvent c e overwrite).2.Consistent := by
  have grouped := h.grouped.addEvent c e overwrite
  rw [addEvent_eq] at grouped ⊢
  split
  · exact h
  · exact h
  · rename_i key taken decided
    simp only [decided] at grouped
    have removed := h.removeEventAt key
    refine ⟨removed.nodes, ?_, grouped.groups, ?_⟩
    · simp only [withEvent, events_removeEventAt]
      exact consistent_of_verdict h.events decided rfl rfl
    · rw [entries_withEvent, ← entries_removeEventAt]
      exact removed.adjacency.link key (taken.withMembership c)

theorem Consistent.clearEvents {s : Store} (h : s.Consistent) : s.clearEvents.Consistent where
  nodes := h.nodes
  events := .empty
  groups := .empty
  adjacency := .empty

/-! ## Both -/

theorem Consistent.setOperation {s : Store} (h : s.Consistent) (operation : Operation) :
    (s.setOperation operation).Consistent := by
  have sameEnds (e : Event) : (Entity.setOperation e operation).endKeys = e.endKeys :=
    Event.endKeys_withCore rfl rfl
  refine ⟨?_, ?_, (h.grouped.setOperation operation).groups, ?_⟩
  · exact h.nodes.mapValues (fun n => Entity.logicKey?_setOperation n operation)
      fun n => Entity.fingerprint_setOperation n operation
  · exact h.events.mapValues (fun e => Entity.logicKey?_setOperation e operation)
      fun e => Entity.fingerprint_setOperation e operation
  · intro node key
    rw [show (s.setOperation operation).adjacency = s.adjacency from rfl, h.adjacency]
    constructor
    · rintro ⟨e, inside, touches⟩
      exact ⟨Entity.setOperation e operation, List.mem_map.mpr ⟨_, inside, rfl⟩,
        (sameEnds e).symm ▸ touches⟩
    · rintro ⟨_, listed, touches⟩
      obtain ⟨entry, inside, same⟩ := List.mem_map.mp listed
      obtain ⟨rfl, rfl⟩ := Prod.mk.injEq .. ▸ same
      exact ⟨entry.2, inside, sameEnds entry.2 ▸ touches⟩

end SchemaGraph.Store
