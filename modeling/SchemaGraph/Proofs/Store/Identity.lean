import SchemaGraph.Proofs.Entity.Identity
import SchemaGraph.Proofs.Store.Reached
import SchemaGraph.Proofs.Store.Views

/-! # What a store takes for the same

A store knows its entities by their logic identifiers alone, so it takes entities for the same
when their identities are alike. Of the others, only one with the same fingerprint is ever in the
way of an entity that is added, and none goes with one that is removed.
-/

namespace SchemaGraph

open Identified (identity?)

namespace Shelf

theorem mem_values_iff {ε : Type} {s : Shelf ε} {e : ε} :
    e ∈ s.values ↔ ∃ key, s.get? key = some e := by
  constructor
  · intro held
    obtain ⟨⟨key, _⟩, inside, rfl⟩ := List.mem_map.mp held
    exact ⟨key, (s.mem_entries_iff key _).mp inside⟩
  · rintro ⟨key, found⟩
    exact List.mem_map_of_mem ((s.mem_entries_iff key e).mpr found)

variable {ε : Type} [Entity ε] {c : Catalog} {s : Shelf ε}
  {add : ε → Bool → Except StoreError Bool × Shelf ε}

/-- An operation that follows the verdict of a shelf: it takes an entity in under its key, or
    leaves the shelf as it was. -/
def AddsByVerdict (c : Catalog) (s : Shelf ε)
    (add : ε → Bool → Except StoreError Bool × Shelf ε) : Prop :=
  ∀ e overwrite, match s.verdict c e overwrite with
    | .error cause => add e overwrite = (.error cause, s)
    | .ok none => add e overwrite = (.ok false, s)
    | .ok (some (key, _)) => (add e overwrite).1 = .ok true ∧
        ∀ other, other ≠ key → (add e overwrite).2.get? other = s.get? other

theorem AddsByVerdict.refused_iff (h : s.AddsByVerdict c add) {e : ε} {key : String}
    (own : Entity.logicKey? e = some key) :
    (add e false).1 = .ok false ↔ s.contains key = true := by
  have taken : s.verdict c e false = .ok none ↔ s.contains key = true := by
    rw [verdict_eq_none_iff, own]
    simp
  rw [← taken]
  have added := h e false
  split at added
  · rename_i decided
    simp [added, decided]
  · rename_i decided
    simp [added, decided]
  · rename_i decided
    simp [added.1, decided]

theorem AddsByVerdict.refuses_of_error (h : s.AddsByVerdict c add) {e : ε} {overwrite : Bool}
    {cause : StoreError} (fails : (add e overwrite).1 = .error cause) : s.Refuses c e := by
  have added := h e overwrite
  split at added
  · rename_i decided
    exact (verdict_eq_error_iff.mp ⟨_, decided⟩).2
  · rw [added] at fails
    cases fails
  · rw [added.1] at fails
    cases fails

theorem AddsByVerdict.get?_eq (h : s.AddsByVerdict c add) {e : ε} (overwrite : Bool)
    {other : String} (different : Entity.logicKey? e ≠ some other) :
    (add e overwrite).2.get? other = s.get? other := by
  have added := h e overwrite
  split at added
  · rw [added]
  · rw [added]
  · rename_i own taken decided
    refine added.2 other ?_
    rintro rfl
    exact different (verdict_eq_some_iff.mp decided).1

variable [Identified ε]

/-- An operation that adds to a shelf and one that removes from it mind only the entities whose
    identities are like that of the given one. Another entity can only hold its fingerprint. -/
structure MindsOnlyAlike (c : Catalog) (s : Shelf ε)
    (add : ε → Bool → Except StoreError Bool × Shelf ε) (remove : ε → Shelf ε) : Prop where
  refused {e : ε} : Entity.isEffective e = true →
    ((add e false).1 = .ok false ↔ ∃ d ∈ s.values, Alike (identity? d) (identity? e))
  failed {e : ε} {overwrite : Bool} :
    (∃ cause, (add e overwrite).1 = .error cause) → s.Refuses c e
  kept (e : ε) (overwrite : Bool) {d : ε} : d ∈ s.values →
    ¬ Alike (identity? d) (identity? e) → d ∈ (add e overwrite).2.values
  removed (e : ε) {d : ε} : d ∈ (remove e).values ↔
    d ∈ s.values ∧ ¬ Alike (identity? d) (identity? e)

theorem alike_iff_key {key : String} {d e : ε} (own : Entity.logicKey? d = some key) :
    Alike (identity? d) (identity? e) ↔ Entity.logicKey? e = some key := by
  rw [Identified.alike_iff_logicKey?, own]
  simp

/-- Where every entity stands under its own key, it is enough that one operation follows the
    verdict of the shelf, and the other one the key. -/
theorem Keyed.mindsOnlyAlike (keyed : s.Keyed) (adds : s.AddsByVerdict c add)
    {remove : ε → Shelf ε} (removes : ∀ e key, (remove e).get? key =
      if Entity.logicKey? e = some key then none else s.get? key) :
    s.MindsOnlyAlike c add remove where
  refused {e} effective := by
    obtain ⟨key, own⟩ := Entity.isEffective_iff.mp effective
    rw [adds.refused_iff own, contains, OrderedMap.contains_iff]
    -- what stands under a key has that key itself, so to be in the way is to be alike
    constructor
    · rintro ⟨d, held⟩
      exact ⟨d, mem_values_iff.mpr ⟨key, held⟩, (alike_iff_key (keyed held)).mpr own⟩
    · rintro ⟨d, isHeld, alike⟩
      obtain ⟨other, held⟩ := mem_values_iff.mp isHeld
      have same := (alike_iff_key (keyed held)).mp alike
      rw [own, Option.some_inj] at same
      exact ⟨d, same ▸ held⟩
  failed := fun ⟨_, fails⟩ => adds.refuses_of_error fails
  kept e overwrite d isHeld different := by
    obtain ⟨key, held⟩ := mem_values_iff.mp isHeld
    rw [alike_iff_key (keyed held)] at different
    exact mem_values_iff.mpr ⟨key, (adds.get?_eq overwrite different).trans held⟩
  removed e d := by
    simp only [mem_values_iff, removes, Option.ite_none_left_eq_some]
    constructor
    · rintro ⟨key, different, held⟩
      exact ⟨⟨key, held⟩, (alike_iff_key (keyed held)).not.mpr different⟩
    · rintro ⟨⟨key, held⟩, different⟩
      exact ⟨key, (alike_iff_key (keyed held)).not.mp different, held⟩

end Shelf

namespace Store

/-! ## Own keys -/

/-- Every node and every event stands under its own key. -/
structure Keyed (s : Store) : Prop where
  nodes : s.nodes.Keyed
  events : s.events.Keyed

variable {s : Store}

theorem Keyed.updateNode (h : s.Keyed) (c : Catalog) (sourceKey sourceId : String)
    (target : Node) : (s.updateNode c sourceKey sourceId target).2.Keyed := by
  rcases updated : s.updateNode c sourceKey sourceId target with ⟨cause | stored, s'⟩
  · rw [updateNode_eq_error updated]
    exact h
  · obtain ⟨r, passed, -, outcome⟩ := updateNode_eq_ok updated
    have nodes : (s.nodes.replace sourceKey r).Keyed :=
      h.nodes.replace (Shelf.logicKey?_of_replacement passed)
    rcases outcome with ⟨_, rfl⟩ | ⟨_, moves, planned, rfl⟩
    · exact ⟨nodes, h.events⟩
    · refine ⟨?_, ?_⟩
      · rw [nodes_applyMoves]
        exact nodes
      · exact Planned.keyed_applyMoves (s := { s with nodes := s.nodes.replace sourceKey r })
          h.events planned

theorem Keyed.kept (c : Catalog) : KeptUnder c Keyed where
  empty := ⟨.empty, .empty⟩
  addNode {s} n overwrite h := by
    rw [addNode_eq]
    split
    · exact h
    · exact h
    · rename_i key taken decided
      exact ⟨(h.nodes.remove key).put (logicKey?_of_verdict decided), h.events⟩
  removeNodeAt key h := ⟨h.nodes.remove key, h.events⟩
  clearNodes h := ⟨.empty, h.events⟩
  addEvent {s} e overwrite h := by
    rw [addEvent_eq]
    split
    · exact h
    · exact h
    · rename_i key taken decided
      refine ⟨?_, ?_⟩
      · simp only [withEvent, Store.index, nodes_removeEventAt]
        exact h.nodes
      · simp only [withEvent, events_removeEventAt]
        exact (h.events.remove key).put
          ((Event.logicKey?_withMembership c taken).trans (logicKey?_of_verdict decided))
  removeEventAt {s} key h := by
    refine ⟨?_, ?_⟩
    · rw [nodes_removeEventAt]
      exact h.nodes
    · rw [events_removeEventAt]
      exact h.events.remove key
  updateEvent {s} sourceKey sourceId target h := by
    unfold Store.updateEvent
    split
    · exact h
    · rename_i r passed
      refine ⟨h.nodes, h.events.replace ?_⟩
      exact (Event.logicKey?_withMembership c r.target).trans
        (Shelf.logicKey?_of_replacement passed)
  clearEvents h := ⟨h.nodes, .empty⟩
  setOperation operation h :=
    ⟨h.nodes.mapValues fun n => Entity.logicKey?_setOperation n operation,
      h.events.mapValues fun e => Entity.logicKey?_setOperation e operation⟩

theorem Keyed.run (h : s.Keyed) (c : Catalog) (action : Action) : (action.run c s).Keyed :=
  (Keyed.kept c).run action h fun sourceKey sourceId target _ =>
    h.updateNode c sourceKey sourceId target

theorem Reached.keyed {allowed : Catalog → Store → Action → Prop} (h : Reached allowed s) :
    s.Keyed := by
  induction h with
  | empty => exact (Keyed.kept .empty).empty
  | step c action _ _ ih => exact ih.run c action

/-! ## Adding and removing -/

/-- Adding and removing nodes and events minds only those that are alike. -/
structure MindsOnlyAlike (c : Catalog) (s : Store) : Prop where
  nodes : s.nodes.MindsOnlyAlike c
    (fun n overwrite => ((s.addNode c n overwrite).1, (s.addNode c n overwrite).2.nodes))
    fun n => ((Action.removeSameNode n).run c s).nodes
  events : s.events.MindsOnlyAlike c
    (fun e overwrite => ((s.addEvent c e overwrite).1, (s.addEvent c e overwrite).2.events))
    fun e => ((Action.removeSameEvent e).run c s).events

theorem Keyed.mindsOnlyAlike (h : s.Keyed) (c : Catalog) : s.MindsOnlyAlike c where
  nodes := by
    refine h.nodes.mindsOnlyAlike (fun n overwrite => ?_) fun n key => ?_
    · rw [addNode_eq]
      rcases s.nodes.verdict c n overwrite with cause | _ | ⟨key, taken⟩
      · rfl
      · rfl
      · exact ⟨rfl, fun other different => (get?_nodes_withNode ..).trans (if_neg different)⟩
    · simp only [Action.run]
      split
      · rename_i own isOwn
        rw [isOwn, removeNodeAt, Shelf.get?_remove]
        simp only [Option.some_inj, eq_comm]
      · rename_i unkeyed
        rw [unkeyed]
        rfl
  events := by
    refine h.events.mindsOnlyAlike (fun e overwrite => ?_) fun e key => ?_
    · rw [addEvent_eq]
      rcases s.events.verdict c e overwrite with cause | _ | ⟨key, taken⟩
      · rfl
      · rfl
      · exact ⟨rfl, fun other different => (get?_events_withEvent ..).trans (if_neg different)⟩
    · simp only [Action.run]
      split
      · rename_i own isOwn
        rw [isOwn, events_removeEventAt, Shelf.get?_remove]
        simp only [Option.some_inj, eq_comm]
      · rename_i unkeyed
        rw [unkeyed]
        rfl

theorem Consistent.mem_incidentEvents_iff_alike (h : s.Consistent) {n : Node} {key : String}
    (keyed : Entity.logicKey? n = some key) {e : Event} :
    e ∈ s.incidentEvents key ↔ e ∈ s.events.values ∧
      (Alike e.left.identity? (identity? n) ∨ Alike e.right.identity? (identity? n)) := by
  rw [h.mem_incidentEvents]
  refine and_congr_right fun isHeld => ?_
  obtain ⟨own, held⟩ := Shelf.mem_values_iff.mp isHeld
  have ofEvent := h.events.keyed held
  rw [Event.mem_endKeys, Event.leftKey?_of_logicKey? ofEvent, Event.rightKey?_of_logicKey? ofEvent,
    Endpoint.alike_iff_logicKey?, Endpoint.alike_iff_logicKey?]
  simp [keyed]

/-- Two nodes or two events have one logic identifier exactly when their identities are the
    same but for where the parts are cut. Only such entities get in each other's way when one is
    added, overwritten or removed, and only events with such an end are at a node. -/
theorem Reached.confuses_only_alike {allowed : Catalog → Store → Action → Prop}
    (h : Reached allowed s) (c : Catalog) :
    (∀ a b : Node, (∃ key, Entity.logicKey? a = some key ∧ Entity.logicKey? b = some key) ↔
      Alike (identity? a) (identity? b)) ∧
    (∀ a b : Event, (∃ key, Entity.logicKey? a = some key ∧ Entity.logicKey? b = some key) ↔
      Alike (identity? a) (identity? b)) ∧
    s.MindsOnlyAlike c ∧
    (s.Consistent → ∀ (n : Node) (key : String) (e : Event), Entity.logicKey? n = some key →
      (e ∈ s.incidentEvents key ↔ e ∈ s.events.values ∧
        (Alike e.left.identity? (identity? n) ∨ Alike e.right.identity? (identity? n)))) := by
  refine ⟨fun a b => Identified.alike_iff_logicKey?.symm,
    fun a b => Identified.alike_iff_logicKey?.symm, h.keyed.mindsOnlyAlike c, ?_⟩
  intro consistent n key e keyed
  exact consistent.mem_incidentEvents_iff_alike keyed

theorem roads_mind_only_alike :
    let s := roads [("a", "b"), ("b", "a")]
    s.MindsOnlyAlike roadCatalog ∧ ∀ e, e ∈ s.incidentEvents "Towna" ↔ e ∈ s.events.values ∧
      (Alike e.left.identity? (identity? (Node.named "Town" "a")) ∨
        Alike e.right.identity? (identity? (Node.named "Town" "a"))) := by
  intro s
  have whole := (reached_roads [("a", "b"), ("b", "a")]).confuses_only_alike roadCatalog
  refine ⟨whole.2.2.1, fun e => ?_⟩
  exact whole.2.2.2 (consistent_roads _) (.named "Town" "a") "Towna" e (by decide +kernel)

/-- A node of another type and with another identifier is taken for the town `na`: it is refused
    where the town is, removes the town, and has the town's road. -/
theorem town_mistaken :
    let town := Node.named "Town" "na"
    let other := Node.named "Townn" "a"
    let road := Event.between "Road" "r" town town
    let s := ((Store.empty.addNode .empty town false).2.addEvent .empty road false).2
    Entity.isEffective other = true ∧ Entity.logicKey? town = Entity.logicKey? other ∧
      identity? town ≠ identity? other ∧ (s.addNode .empty other false).1 = .ok false ∧
      s.nodes.entries.size = 1 ∧
      ((Action.removeSameNode other).run .empty s).nodes.entries.size = 0 ∧
      (s.eventsOf other).length = 1 := by
  decide +kernel

end Store

end SchemaGraph
