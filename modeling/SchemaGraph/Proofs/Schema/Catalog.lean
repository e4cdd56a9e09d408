import Mathlib.Tactic.Tauto
import SchemaGraph.Proofs.Outcome
import SchemaGraph.Schema.Document

/-! # Consistent catalogs

In a catalog that its operations have built, every definition is filed under what it is told
apart by, the ends of event types are defined, and the event types at a node type are those
that touch it, in the order of all event types.
-/

namespace SchemaGraph

namespace SortedMap

variable {κ ν : Type} [Ord κ] [DecidableEq κ] [Std.TransOrd κ] [Std.LawfulEqOrd κ]

theorem mem_entries_insert {m : SortedMap κ ν} {key : κ} {value : ν} {entry : κ × ν} :
    entry ∈ (m.insert key value).entries ↔
      entry = (key, value) ∨ entry ∈ m.entries ∧ entry.1 ≠ key := by
  obtain ⟨otherKey, other⟩ := entry
  rw [← get?_eq_some_iff, get?_insert, ← get?_eq_some_iff]
  by_cases same : otherKey = key
  · simp [same, eq_comm]
  · simp [same]

theorem contains_insert {m : SortedMap κ ν} {key other : κ} {value : ν} :
    (m.insert key value).contains other = true ↔ other = key ∨ m.contains other = true := by
  rw [contains, get?_insert]
  by_cases same : other = key
  · simp [same]
  · simp [same, contains]

end SortedMap

namespace IncidentIndex

theorem get?_file (index : IncidentIndex) (d : EventDefinition) (node other : String) :
    ((index.file other d).get? node).getD [] =
      (index.get? node).getD [] ++ if node = other then [d] else [] := by
  rw [file, SortedMap.get?_insert]
  by_cases same : node = other
  · simp [same]
  · simp [same]

theorem get?_fileEnds (index : IncidentIndex) (d : EventDefinition) (node : String) :
    ((index.fileEnds d).get? node).getD [] =
      (index.get? node).getD [] ++ if d.touches node then [d] else [] := by
  simp only [fileEnds, EventDefinition.touches, EventKey.touches]
  by_cases loop : d.key.right = d.key.left
  · rw [if_pos loop, get?_file]
    simp [loop, eq_comm]
  · rw [if_neg loop, get?_file, get?_file, List.append_assoc]
    by_cases atLeft : node = d.key.left
    · simp [atLeft, Ne.symm loop]
    · simp [atLeft, Ne.symm atLeft, eq_comm]

theorem get?_foldl_fileEnds (definitions : List EventDefinition) (index : IncidentIndex)
    (node : String) : ((definitions.foldl fileEnds index).get? node).getD [] =
      (index.get? node).getD [] ++ definitions.filter fun d => d.touches node := by
  induction definitions generalizing index with
  | nil => simp
  | cons d rest ih =>
      rw [List.foldl_cons, ih, get?_fileEnds, List.filter_cons, List.append_assoc]
      congr 1
      split <;> rfl

theorem get?_ofDefinitions (definitions : List EventDefinition) (node : String) :
    ((ofDefinitions definitions).get? node).getD [] =
      definitions.filter fun d => d.touches node :=
  get?_foldl_fileEnds definitions .empty node

end IncidentIndex

namespace Catalog

/-- All parts of a catalog agree. -/
structure Consistent (c : Catalog) : Prop where
  named {name : String} {d : NodeDefinition} : (name, d) ∈ c.nodes.entries → d.name = name
  filed {key : EventKey} {d : EventDefinition} : (key, d) ∈ c.events.entries → d.key = key
  ends {key : EventKey} {d : EventDefinition} : (key, d) ∈ c.events.entries →
    c.nodes.contains key.left = true ∧ c.nodes.contains key.right = true
  incident : c.incident = .ofDefinitions c.events.values

/-- The catalogs that the operations of catalogs build. -/
inductive Reached : Catalog → Prop
  | empty : Reached .empty
  | putNode {c built : Catalog} (d : NodeDefinition) (overwrite : Bool) : Reached c →
      c.putNode d overwrite = .ok built → Reached built
  | putEvent {c built : Catalog} (d : EventDefinition) (overwrite : Bool) : Reached c →
      c.putEvent d overwrite = .ok built → Reached built
  | removeNode {c : Catalog} (name : String) : Reached c → Reached (c.removeNode name).2
  | removeEvent {c : Catalog} (key : EventKey) : Reached c → Reached (c.removeEvent key).2

variable {c built : Catalog}

theorem putNode_eq_ok {d : NodeDefinition} {overwrite : Bool}
    (put : c.putNode d overwrite = .ok built) :
    built = { c with nodes := c.nodes.insert d.name d.normalized } := by
  rw [Catalog.putNode] at put
  split at put
  · cases put
  · split at put
    · cases put
    · exact (Except.ok.inj put).symm

theorem putEvent_eq_ok {d : EventDefinition} {overwrite : Bool}
    (put : c.putEvent d overwrite = .ok built) :
    c.nodes.contains d.key.left = true ∧ c.nodes.contains d.key.right = true ∧
      built = c.withEvents (c.events.insert d.key d.normalized) := by
  rw [Catalog.putEvent] at put
  split at put
  · cases put
  · rename_i left
    split at put
    · cases put
    · rename_i right
      split at put
      · cases put
      · split at put
        · cases put
        · exact ⟨by simpa using left, by simpa using right, (Except.ok.inj put).symm⟩

theorem Consistent.empty : Catalog.empty.Consistent where
  named inside := by cases inside
  filed inside := by cases inside
  ends inside := by cases inside
  incident := rfl

theorem Consistent.putNode (h : c.Consistent) {d : NodeDefinition} {overwrite : Bool}
    (put : c.putNode d overwrite = .ok built) : built.Consistent := by
  rw [putNode_eq_ok put]
  refine ⟨fun {name e} inside => ?_, h.filed, fun inside => ?_, h.incident⟩
  · rcases SortedMap.mem_entries_insert.mp inside with same | ⟨before, _⟩
    · obtain ⟨rfl, rfl⟩ := Prod.mk.inj same
      rfl
    · exact h.named before
  · exact ⟨SortedMap.contains_insert.mpr (Or.inr (h.ends inside).1),
      SortedMap.contains_insert.mpr (Or.inr (h.ends inside).2)⟩

theorem Consistent.putEvent (h : c.Consistent) {d : EventDefinition} {overwrite : Bool}
    (put : c.putEvent d overwrite = .ok built) : built.Consistent := by
  obtain ⟨left, right, rfl⟩ := putEvent_eq_ok put
  refine ⟨h.named, fun {key e} inside => ?_, fun {key e} inside => ?_, rfl⟩
  · rcases SortedMap.mem_entries_insert.mp inside with same | ⟨before, _⟩
    · obtain ⟨rfl, rfl⟩ := Prod.mk.inj same
      rfl
    · exact h.filed before
  · rcases SortedMap.mem_entries_insert.mp inside with same | ⟨before, _⟩
    · obtain ⟨rfl, rfl⟩ := Prod.mk.inj same
      exact ⟨left, right⟩
    · exact h.ends before

theorem Consistent.removeNode (h : c.Consistent) (name : String) :
    (c.removeNode name).2.Consistent := by
  rw [Catalog.removeNode]
  split
  · exact h
  · refine ⟨fun inside => ?_, fun inside => ?_, fun {key d} inside => ?_, rfl⟩
    · exact h.named (List.mem_filter.mp inside).1
    · exact h.filed (List.mem_filter.mp inside).1
    · obtain ⟨before, untouched⟩ := List.mem_filter.mp inside
      have away : key.left ≠ name ∧ key.right ≠ name := by
        simpa [EventDefinition.touches, EventKey.touches, h.filed before] using untouched
      have stays {other : String} (defined : c.nodes.contains other = true)
          (different : other ≠ name) : (c.nodes.erase name).contains other = true := by
        rw [SortedMap.contains, SortedMap.get?_erase, if_neg different]
        exact defined
      exact ⟨stays (h.ends before).1 away.1, stays (h.ends before).2 away.2⟩

theorem Consistent.removeEvent (h : c.Consistent) (key : EventKey) :
    (c.removeEvent key).2.Consistent := by
  rw [Catalog.removeEvent]
  split
  · exact h
  · refine ⟨h.named, fun inside => ?_, fun inside => ?_, rfl⟩
    · exact h.filed (List.mem_filter.mp inside).1
    · exact h.ends (List.mem_filter.mp inside).1

theorem Reached.consistent (h : c.Reached) : c.Consistent := by
  induction h with
  | empty => exact .empty
  | putNode d overwrite _ put ih => exact ih.putNode put
  | putEvent d overwrite _ put ih => exact ih.putEvent put
  | removeNode name _ ih => exact ih.removeNode name
  | removeEvent key _ ih => exact ih.removeEvent key

theorem reached_ofDocument {s : SchemaDocument} (loaded : ofDocument s = .ok built) :
    built.Reached := by
  obtain ⟨c, nodes, events⟩ := Outcome.bind_eq_ok_iff.mp loaded
  have withNodes : c.Reached :=
    Outcome.foldlM_keeps (fun before put => Reached.putNode _ false before put) Reached.empty nodes
  exact Outcome.foldlM_keeps (fun before put => Reached.putEvent _ false before put) withNodes
    events

/-- The event types at a node type are those that touch it, in their order. -/
theorem Consistent.incidentTo_eq (h : c.Consistent) (node : String) :
    c.incidentTo node = c.events.values.filter fun d => d.touches node := by
  rw [incidentTo, h.incident, IncidentIndex.get?_ofDefinitions]

theorem Consistent.keys_of_values (h : c.Consistent) :
    c.events.values.map EventDefinition.key = c.events.keys := by
  rw [SortedMap.values, SortedMap.keys, List.map_map]
  exact List.map_congr_left fun entry inside => h.filed inside

end Catalog

end SchemaGraph
