import Mathlib.Data.String.Basic
import SchemaGraph.Proofs.Collections.Bisection
import SchemaGraph.Proofs.Schema.Catalog

/-! # Catalogs stay intact

Whatever is done to a catalog, failed operations included, its definitions can be looked up
under what they are told apart by, its event types join defined node types and stand at them
in their order, and the lists that are searched by bisection are sorted.
-/

namespace SchemaGraph

theorem sortedTexts_rising (texts : List String) : (sortedTexts texts).Pairwise (· ≤ ·) := by
  refine (List.pairwise_mergeSort (fun a b c first second => ?_) (fun a b => ?_) texts).imp ?_
  · simp only [decide_eq_true_eq] at first second ⊢
    exact String.le_trans first second
  · simpa using String.le_total a b
  · intro a b below
    simpa using below

/-- Bisection of rising texts finds exactly the listed ones. -/
theorem Bisection.meets_text_iff {texts : List String} (rising : texts.Pairwise (· ≤ ·))
    (wanted : String) : meets texts.toArray wanted = true ↔ wanted ∈ texts := by
  refine meets_iff_mem (rising.imp fun {a b} below => ?_)
  rw [← compare_le_iff_le] at below
  cases order : compare a b
  · rfl
  · rfl
  · exact absurd order below

namespace Catalog

variable {c built : Catalog}

/-! ## Sorted lists -/

/-- The unique indices and the namespaces of all definitions are sorted. -/
structure Sorted (c : Catalog) : Prop where
  nodes {name : String} {d : NodeDefinition} : (name, d) ∈ c.nodes.entries →
    d.uniqueIndex.Pairwise (· ≤ ·) ∧ d.namespaces.Pairwise (· ≤ ·)
  events {key : EventKey} {d : EventDefinition} : (key, d) ∈ c.events.entries →
    d.uniqueIndex.Pairwise (· ≤ ·) ∧ d.namespaces.Pairwise (· ≤ ·)

theorem Sorted.putNode (h : c.Sorted) {d : NodeDefinition} {overwrite : Bool}
    (put : c.putNode d overwrite = .ok built) : built.Sorted := by
  rw [putNode_eq_ok put]
  refine ⟨fun {name e} inside => ?_, h.events⟩
  rcases SortedMap.mem_entries_insert.mp inside with same | ⟨before, _⟩
  · obtain ⟨rfl, rfl⟩ := Prod.mk.inj same
    exact ⟨sortedTexts_rising d.uniqueIndex, sortedTexts_rising d.namespaces⟩
  · exact h.nodes before

theorem Sorted.putEvent (h : c.Sorted) {d : EventDefinition} {overwrite : Bool}
    (put : c.putEvent d overwrite = .ok built) : built.Sorted := by
  obtain ⟨_, _, rfl⟩ := putEvent_eq_ok put
  refine ⟨h.nodes, fun {key e} inside => ?_⟩
  rcases SortedMap.mem_entries_insert.mp inside with same | ⟨before, _⟩
  · obtain ⟨rfl, rfl⟩ := Prod.mk.inj same
    exact ⟨sortedTexts_rising d.uniqueIndex, sortedTexts_rising d.namespaces⟩
  · exact h.events before

theorem Sorted.removeNode (h : c.Sorted) (name : String) : (c.removeNode name).2.Sorted := by
  rw [Catalog.removeNode]
  split
  · exact h
  · exact ⟨fun inside => h.nodes (List.mem_filter.mp inside).1,
      fun inside => h.events (List.mem_filter.mp inside).1⟩

theorem Sorted.removeEvent (h : c.Sorted) (key : EventKey) : (c.removeEvent key).2.Sorted := by
  rw [Catalog.removeEvent]
  split
  · exact h
  · exact ⟨h.nodes, fun inside => h.events (List.mem_filter.mp inside).1⟩

theorem Reached.sorted (h : c.Reached) : c.Sorted := by
  induction h with
  | empty => exact ⟨fun inside => (by cases inside), fun inside => (by cases inside)⟩
  | putNode d overwrite _ put ih => exact ih.putNode put
  | putEvent d overwrite _ put ih => exact ih.putEvent put
  | removeNode name _ ih => exact ih.removeNode name
  | removeEvent key _ ih => exact ih.removeEvent key

/-! ## Intact catalogs -/

/-- What one may rely on when one asks a catalog. -/
structure Intact (c : Catalog) : Prop where
  named {name : String} {d : NodeDefinition} : c.node? name = some d → d.name = name
  filed {key : EventKey} {d : EventDefinition} : c.event? key = some d → d.key = key
  ends {key : EventKey} {d : EventDefinition} : c.event? key = some d →
    (c.node? key.left).isSome = true ∧ (c.node? key.right).isSome = true
  /-- The event types at a node type are the defined ones that have it at an end. -/
  touching {node : String} {d : EventDefinition} : d ∈ c.incidentTo node ↔
    c.event? d.key = some d ∧ (d.key.left = node ∨ d.key.right = node)
  once (node : String) : (c.incidentTo node).Nodup
  ordered (node : String) : (c.incidentTo node).Pairwise fun d e => compare d.key e.key = .lt
  sortedNode {name : String} {d : NodeDefinition} : c.node? name = some d →
    d.uniqueIndex.Pairwise (· ≤ ·) ∧ d.namespaces.Pairwise (· ≤ ·)
  sortedEvent {key : EventKey} {d : EventDefinition} : c.event? key = some d →
    d.uniqueIndex.Pairwise (· ≤ ·) ∧ d.namespaces.Pairwise (· ≤ ·)
  inNamespace {name : String} {d : NodeDefinition} : c.node? name = some d →
    ∀ space, d.inNamespace space = true ↔ space ∈ d.namespaces

theorem Consistent.mem_values_iff (h : c.Consistent) {d : EventDefinition} :
    d ∈ c.events.values ↔ c.event? d.key = some d := by
  rw [Catalog.event?, SortedMap.get?_eq_some_iff, SortedMap.values, List.mem_map]
  constructor
  · rintro ⟨⟨key, e⟩, inside, rfl⟩
    rwa [h.filed inside]
  · intro inside
    exact ⟨_, inside, rfl⟩

theorem Consistent.values_rising (h : c.Consistent) :
    c.events.values.Pairwise fun d e => compare d.key e.key = .lt := by
  have keys : c.events.keys.Pairwise fun one other => compare one other = .lt := c.events.sorted
  rw [← h.keys_of_values] at keys
  exact List.pairwise_map.mp keys

theorem Consistent.mem_incidentTo_iff (h : c.Consistent) {node : String} {d : EventDefinition} :
    d ∈ c.incidentTo node ↔
      c.event? d.key = some d ∧ (d.key.left = node ∨ d.key.right = node) := by
  rw [h.incidentTo_eq, List.mem_filter, h.mem_values_iff, EventDefinition.touches,
    EventKey.touches, Bool.or_eq_true, decide_eq_true_eq, decide_eq_true_eq]

theorem Consistent.incidentTo_rising (h : c.Consistent) (node : String) :
    (c.incidentTo node).Pairwise fun d e => compare d.key e.key = .lt := by
  rw [h.incidentTo_eq]
  exact h.values_rising.filter _

theorem Reached.intact (h : c.Reached) : c.Intact where
  named held := h.consistent.named ((SortedMap.get?_eq_some_iff _ _ _).mp held)
  filed held := h.consistent.filed ((SortedMap.get?_eq_some_iff _ _ _).mp held)
  ends held := h.consistent.ends ((SortedMap.get?_eq_some_iff _ _ _).mp held)
  touching := h.consistent.mem_incidentTo_iff
  once node := (h.consistent.incidentTo_rising node).imp fun below same => by
    simp [same, Std.compare_self] at below
  ordered := h.consistent.incidentTo_rising
  sortedNode held := h.sorted.nodes ((SortedMap.get?_eq_some_iff _ _ _).mp held)
  sortedEvent held := h.sorted.events ((SortedMap.get?_eq_some_iff _ _ _).mp held)
  inNamespace held space := Bisection.meets_text_iff
    (h.sorted.nodes ((SortedMap.get?_eq_some_iff _ _ _).mp held)).2 space

/-! ## Runs of operations -/

/-- An operation on a catalog. -/
inductive Action where
  | putNode (d : NodeDefinition) (overwrite : Bool)
  | putEvent (d : EventDefinition) (overwrite : Bool)
  /-- Remove a node type and the event types that touch it. -/
  | removeNode (name : String)
  | removeEvent (key : EventKey)
  /-- Go on with the catalog of a document. -/
  | load (s : SchemaDocument)

namespace Action

/-- Whether the operation does what it is for; a removal does not when there is nothing to
    remove. -/
def succeeds (c : Catalog) : Action → Bool
  | putNode d overwrite => (c.putNode d overwrite).isOk
  | putEvent d overwrite => (c.putEvent d overwrite).isOk
  | removeNode name => (c.removeNode name).1.isSome
  | removeEvent key => (c.removeEvent key).1.isSome
  | load s => (ofDocument s).isOk

/-- The catalog behind an operation, whether it succeeds or not. -/
def run (c : Catalog) : Action → Catalog
  | putNode d overwrite => (c.putNode d overwrite).toOption.getD c
  | putEvent d overwrite => (c.putEvent d overwrite).toOption.getD c
  | removeNode name => (c.removeNode name).2
  | removeEvent key => (c.removeEvent key).2
  | load s => (ofDocument s).toOption.getD c

theorem run_of_fails {action : Action} (fails : action.succeeds c = false) :
    action.run c = c := by
  cases action with
  | putNode d overwrite => exact Outcome.getD_of_failed fails
  | putEvent d overwrite => exact Outcome.getD_of_failed fails
  | removeNode name =>
      simp only [succeeds, run, Catalog.removeNode] at fails ⊢
      cases held : c.node? name with
      | none => rfl
      | some _ => simp [held] at fails
  | removeEvent key =>
      simp only [succeeds, run, Catalog.removeEvent] at fails ⊢
      cases held : c.event? key with
      | none => rfl
      | some _ => simp [held] at fails
  | load s => exact Outcome.getD_of_failed fails

end Action

theorem Reached.run (h : c.Reached) (action : Action) : (action.run c).Reached := by
  cases action with
  | putNode d overwrite => exact Outcome.getD_keeps h (h.putNode d overwrite)
  | putEvent d overwrite => exact Outcome.getD_keeps h (h.putEvent d overwrite)
  | removeNode name => exact h.removeNode name
  | removeEvent key => exact h.removeEvent key
  | load s => exact Outcome.getD_keeps h reached_ofDocument

/-- The catalog behind operations one after the other. -/
def runAll (actions : List Action) (c : Catalog) : Catalog := actions.foldl Action.run c

theorem Reached.runAll (h : c.Reached) (actions : List Action) :
    (Catalog.runAll actions c).Reached := by
  induction actions generalizing c with
  | nil => exact h
  | cons action rest ih => exact ih (h.run action)

/-- Operations of any outcome, one after the other, leave an intact catalog, and one that
    fails leaves it as it was. -/
theorem runAll_intact (actions : List Action) :
    (runAll actions .empty).Intact ∧ ∀ action : Action,
      action.succeeds (runAll actions .empty) = false →
        action.run (runAll actions .empty) = runAll actions .empty :=
  ⟨(Reached.empty.runAll actions).intact, fun _ fails => Action.run_of_fails fails⟩

end Catalog

end SchemaGraph
