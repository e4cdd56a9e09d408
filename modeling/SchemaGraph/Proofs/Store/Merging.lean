import SchemaGraph.Proofs.Store.Bulk
import SchemaGraph.Proofs.Store.Intake

/-! # Merging

The store that is merged into has precedence: what it holds stays where it is, and the other one
adds what is missing. So what is missing tells whether a merge fails, and merging once more finds
nothing to add.
-/

namespace SchemaGraph.Store

variable {c : Catalog} {s t : Store} {nodes : Shelf Node} {cause : StoreError}

/-! ## Copies

A merge takes in copies without fingerprint, which makes no difference to what is computed. -/

theorem computeFingerprint_detached_node (c : Catalog) (n : Node) :
    Entity.computeFingerprint c n.detached = Entity.computeFingerprint c n :=
  rfl

theorem computeFingerprint_detached_event (c : Catalog) (e : Event) :
    Entity.computeFingerprint c e.detached = Entity.computeFingerprint c e :=
  rfl

/-- Copies of all events. -/
def eventCopies (s : Store) : List Event := s.events.values.map Event.detached

theorem Consistent.newcomers_nodes (h : t.Consistent) (s : Store) :
    s.nodes.newcomers t.detachedNodes =
      (s.nodes.missing t.nodes).map fun entry => (entry.1, entry.2.detached) := by
  apply Shelf.newcomers_values
  · exact fun _ _ held => h.nodes.keyed held
  · exact fun _ => rfl

theorem Consistent.newcomers_events (h : t.Consistent) (s : Store) :
    s.events.newcomers t.eventCopies =
      (s.events.missing t.events).map fun entry => (entry.1, entry.2.detached) := by
  apply Shelf.newcomers_values
  · exact fun _ _ held => h.events.keyed held
  · exact fun _ => rfl

/-! ## Nodes before events -/

theorem merge_of_nodes_error
    (failed : s.nodes.addAll c id t.detachedNodes = (.error cause, nodes)) :
    s.merge c t = (.error cause, { s with nodes }) := by
  rw [merge, addNodes_eq, failed]

/-- Once the nodes are in, a merge does with the events what is to be done with them. -/
theorem merge_of_nodes_ok (added : s.nodes.addAll c id t.detachedNodes = (.ok (), nodes)) :
    (s.merge c t).2.nodes = nodes ∧
    ((s.merge c t).1, (s.merge c t).2.events) =
      s.events.addAll c (Event.withMembership c) t.eventCopies := by
  have onward : s.merge c t = addEvents c { s with nodes } t.eventCopies := by
    rw [merge, addNodes_eq, added]
    rfl
  obtain ⟨answer, events, sameNodes⟩ := addEvents_eq (c := c) t.eventCopies { s with nodes }
  rw [onward]
  exact ⟨sameNodes, Prod.ext answer events⟩

/-- A merge succeeds when both the nodes and the events can be taken in. -/
theorem merge_eq_ok_iff : (s.merge c t).1 = .ok () ↔
    s.nodes.addAll c id t.detachedNodes = (.ok (), (s.merge c t).2.nodes) ∧
      s.events.addAll c (Event.withMembership c) t.eventCopies =
        (.ok (), (s.merge c t).2.events) := by
  rcases added : s.nodes.addAll c id t.detachedNodes with ⟨cause | _, nodes⟩
  · simp [merge_of_nodes_error added]
  · obtain ⟨rfl, events⟩ := merge_of_nodes_ok added
    simp [← events]

theorem Consistent.merge_eq_error_iff (h : s.Consistent) (h' : t.Consistent) :
    (∃ cause, (s.merge c t).1 = .error cause) ↔
      s.nodes.Obstacle c (s.nodes.missing t.nodes) ∨
        s.events.Obstacle c (s.events.missing t.events) := by
  have ofNodes : (∃ cause, (s.nodes.addAll c id t.detachedNodes).1 = .error cause) ↔
      s.nodes.Obstacle c (s.nodes.missing t.nodes) := by
    rw [Shelf.addAll_eq_error_iff h.nodes light_id, h'.newcomers_nodes,
      Shelf.obstacle_map_iff (computeFingerprint_detached_node c)]
  have ofEvents : (∃ cause, (s.events.addAll c (Event.withMembership c) t.eventCopies).1 =
      .error cause) ↔ s.events.Obstacle c (s.events.missing t.events) := by
    rw [Shelf.addAll_eq_error_iff h.events (light_withMembership c), h'.newcomers_events,
      Shelf.obstacle_map_iff (computeFingerprint_detached_event c)]
  rw [← ofNodes, ← ofEvents]
  rcases added : s.nodes.addAll c id t.detachedNodes with ⟨cause | _, nodes⟩
  · simp [merge_of_nodes_error added]
  · simp [← (merge_of_nodes_ok added).2]

theorem merge_of_held (heldNodes : s.nodes.HoldsAll t.detachedNodes)
    (heldEvents : s.events.HoldsAll t.eventCopies) : s.merge c t = (.ok (), s) := by
  rw [merge, addNodes_of_held heldNodes]
  exact addEvents_of_held heldEvents

/-! ## Precedence -/

/-- What a merge does to the store that it is made into. -/
structure Merges (c : Catalog) (s t : Store) : Prop where
  nodesStay : s.nodes.entries.entries <+: (s.merge c t).2.nodes.entries.entries
  eventsStay : s.events.entries.entries <+: (s.merge c t).2.events.entries.entries
  fails : (∃ cause, (s.merge c t).1 = .error cause) ↔
    s.nodes.Obstacle c (s.nodes.missing t.nodes) ∨ s.events.Obstacle c (s.events.missing t.events)
  nodes : (s.merge c t).1 = .ok () → (s.merge c t).2.nodes.entries.entries =
    s.nodes.entries.entries ++ (s.nodes.missing t.nodes).map (Shelf.settled c Node.duplicate)
  events : (s.merge c t).1 = .ok () → (s.merge c t).2.events.entries.entries =
    s.events.entries.entries ++
      (s.events.missing t.events).map (Shelf.settled c (Event.withMembership c))
  again : (s.merge c t).1 = .ok () → (s.merge c t).2.merge c t = (.ok (), (s.merge c t).2)

/-- A merge leaves what is there in front, and puts behind it what is missing, with fingerprints
    and memberships as they are now. It fails exactly when the fingerprint of something missing
    cannot be computed, or is carried by what is there or shared with something else missing. -/
theorem Consistent.merges (h : s.Consistent) (h' : t.Consistent) (c : Catalog) :
    s.Merges c t where
  nodesStay := by
    have stay := Shelf.prefix_addAll c id s.nodes t.detachedNodes
    rcases added : s.nodes.addAll c id t.detachedNodes with ⟨cause | _, nodes⟩
    · rw [added] at stay
      rw [merge_of_nodes_error added]
      exact stay
    · rw [added] at stay
      rw [(merge_of_nodes_ok added).1]
      exact stay
  eventsStay := by
    rcases added : s.nodes.addAll c id t.detachedNodes with ⟨cause | _, nodes⟩
    · refine ⟨[], ?_⟩
      rw [merge_of_nodes_error added, List.append_nil]
    · have stay := Shelf.prefix_addAll c (Event.withMembership c) s.events t.eventCopies
      rw [← (merge_of_nodes_ok added).2] at stay
      exact stay
  fails := h.merge_eq_error_iff h'
  nodes merged := by
    obtain ⟨added, -⟩ := merge_eq_ok_iff.mp merged
    rw [Shelf.entries_addAll h.nodes light_id added, h'.newcomers_nodes, List.map_map]
    rfl
  events merged := by
    obtain ⟨-, added⟩ := merge_eq_ok_iff.mp merged
    rw [Shelf.entries_addAll h.events (light_withMembership c) added, h'.newcomers_events,
      List.map_map]
    rfl
  again merged := by
    obtain ⟨addedNodes, addedEvents⟩ := merge_eq_ok_iff.mp merged
    apply merge_of_held
    · exact Shelf.holdsAll_of_addAll h.nodes light_id addedNodes
    · exact Shelf.holdsAll_of_addAll h.events (light_withMembership c) addedEvents

/-- Two towns come to a town whose identifier one of them has: that one stays away, with its
    mayor, who is mayor of the other town too. But a mayor of a town that is there is in the way. -/
theorem held_town_has_precedence :
    let s := (Store.empty.addNode mayorCatalog (townOf "m" "a") false).2
    let t := ((Store.empty.addNode .empty (townOf "k" "a") false).2.addNode .empty
      (townOf "k" "b") false).2
    let u := (Store.empty.addNode .empty (townOf "m" "b") false).2
    let merged := s.merge mayorCatalog t
    merged.1 = .ok () ∧ merged.2.nodes.entries.keys = ["Towna", "Townb"] ∧
      ((merged.2.nodes.get? "Towna").bind (Entity.property? · "mayor")).map Value.fingerprintText =
        some "m" ∧
      merged.2.merge mayorCatalog t = (.ok (), merged.2) ∧
      ∃ cause, (s.merge mayorCatalog u).1 = .error cause := by
  intro s t u merged
  have consistent : s.Consistent := Consistent.empty.addNode mayorCatalog (townOf "m" "a") false
  have others : t.Consistent :=
    (Consistent.empty.addNode .empty (townOf "k" "a") false).addNode .empty (townOf "k" "b") false
  have merges : s.Merges mayorCatalog t := consistent.merges others mayorCatalog
  have success : merged.1 = .ok () := by decide +kernel
  have failure : (s.merge mayorCatalog u).1.isOk = false := by decide +kernel
  refine ⟨success, by decide +kernel, by decide +kernel, merges.again success, ?_⟩
  cases answer : (s.merge mayorCatalog u).1 with
  | error cause => exact ⟨cause, rfl⟩
  | ok => simp [answer, Except.isOk, Except.toBool] at failure

end SchemaGraph.Store
