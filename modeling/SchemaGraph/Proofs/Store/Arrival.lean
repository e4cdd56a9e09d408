import SchemaGraph.Proofs.Store.Bulk
import SchemaGraph.Proofs.Store.Intake
import SchemaGraph.Proofs.Store.RoundTrip

/-! # The order of arrival

Whether each one of several entities finds room, and nobody with its fingerprint, can be told from
all of them together. So if they all come in in one order, they do so in every other one, and only
the order in which they are listed differs.
-/

namespace SchemaGraph

namespace Shelf

variable {ε : Type} [Entity ε] {c : Catalog} {s : Shelf ε} {e taken : ε} {es others : List ε}
  {final : ε → ε} {key : String} {entries more : List (String × ε)}

/-- Entities that can all come onto a shelf, in whatever order. -/
structure Admits (c : Catalog) (s : Shelf ε) (es : List ε) : Prop where
  room : ∀ e ∈ es, ∃ key, s.HasRoom e false key
  distinct : ((es.filterMap Entity.keyed?).map Prod.fst).Nodup
  clear : ¬ s.Obstacle c (es.filterMap Entity.keyed?)

theorem Obstacle.mono (obstacle : s.Obstacle c entries) (within : entries ⊆ more) :
    s.Obstacle c more := by
  cases obstacle with
  | uncomputable inside fails => exact .uncomputable (within inside) fails
  | carried inside computed carries different =>
      exact .carried (within inside) computed carries different
  | shared first second different ofOne ofOther =>
      exact .shared (within first) (within second) different ofOne ofOther

theorem Admits.perm (admits : s.Admits c es) (perm : es.Perm others) : s.Admits c others where
  room e inside := admits.room e (perm.mem_iff.mpr inside)
  distinct := ((perm.filterMap _).map _).nodup_iff.mp admits.distinct
  clear obstacle := admits.clear (obstacle.mono (perm.filterMap _).symm.subset)

theorem admits_nil : s.Admits c [] := by
  constructor
  · intro e inside
    cases inside
  · exact List.nodup_nil
  · exact not_obstacle_nil

theorem hasRoom_put_iff {d : ε} {other : String} : (s.put key taken).HasRoom d false other ↔
    s.HasRoom d false other ∧ other ≠ key := by
  simp only [HasRoom, contains_put, Bool.or_eq_false_iff, decide_eq_false_iff_not, true_implies]
  tauto

theorem Admits.first [LawfulEntity ε] (h : s.Consistent) (admits : s.Admits c (e :: es)) :
    ∃ key taken, s.verdict c e false = .ok (some (key, taken)) := by
  obtain ⟨key, room⟩ := admits.room e List.mem_cons_self
  have clear := admits.clear
  rw [List.filterMap_cons_some (keyed?_of_room room)] at clear
  cases admission : s.admitted c key key e with
  | error cause => exact absurd (obstacle_of_refused h admission) clear
  | ok taken =>
      refine ⟨key, taken, ?_⟩
      rw [verdict_of_room room, admission]
      rfl

/-- The first one has come, and is in nobody's way. -/
theorem Admits.rest [LawfulEntity ε] (h : s.Consistent) (light : Light final)
    (admits : s.Admits c (e :: es)) (decided : s.verdict c e false = .ok (some (key, taken))) :
    (s.put key (final taken)).Admits c es := by
  obtain ⟨room, -⟩ := (verdict_eq_given_iff h).mp decided
  obtain ⟨roomy, distinct, clear⟩ := admits
  rw [List.filterMap_cons_some (keyed?_of_room room)] at distinct clear
  obtain ⟨fresh, distinct⟩ := List.nodup_cons.mp distinct
  have apart : ∀ entry ∈ es.filterMap Entity.keyed?, entry.1 ≠ key := by
    intro entry inside same
    exact fresh (List.mem_map.mpr ⟨entry, inside, same⟩)
  refine ⟨fun d inside => ?_, distinct, ?_⟩
  · obtain ⟨own, roomToo⟩ := roomy d (List.mem_cons_of_mem e inside)
    have listed : (own, d) ∈ es.filterMap Entity.keyed? :=
      List.mem_filterMap.mpr ⟨d, inside, keyed?_of_room roomToo⟩
    exact ⟨own, hasRoom_put_iff.mpr ⟨roomToo, apart _ listed⟩⟩
  · rwa [← h.obstacle_cons_iff light decided apart]

theorem Admits.cons [LawfulEntity ε] (h : s.Consistent) (light : Light final)
    (decided : s.verdict c e false = .ok (some (key, taken)))
    (admits : (s.put key (final taken)).Admits c es) : s.Admits c (e :: es) := by
  obtain ⟨room, -⟩ := (verdict_eq_given_iff h).mp decided
  have apart : ∀ entry ∈ es.filterMap Entity.keyed?, entry.1 ≠ key := by
    intro entry inside
    obtain ⟨d, listed, isEntry⟩ := List.mem_filterMap.mp inside
    obtain ⟨own, roomToo⟩ := admits.room d listed
    rw [keyed?_of_room roomToo, Option.some_inj] at isEntry
    rw [← isEntry]
    exact (hasRoom_put_iff.mp roomToo).2
  constructor
  · intro d inside
    rcases List.mem_cons.mp inside with rfl | inside
    · exact ⟨key, room⟩
    · obtain ⟨own, roomToo⟩ := admits.room d inside
      exact ⟨own, (hasRoom_put_iff.mp roomToo).1⟩
  · rw [List.filterMap_cons_some (keyed?_of_room room), List.map_cons, List.nodup_cons]
    refine ⟨fun listed => ?_, admits.distinct⟩
    obtain ⟨entry, inside, same⟩ := List.mem_map.mp listed
    exact apart entry inside same
  · rw [List.filterMap_cons_some (keyed?_of_room room), h.obstacle_cons_iff light decided apart]
    exact admits.clear

/-- Entities are admitted when the first one is, and the others are once it has come. -/
theorem Consistent.admits_cons_iff [LawfulEntity ε] (h : s.Consistent) (light : Light final) :
    s.Admits c (e :: es) ↔ ∃ key taken, s.verdict c e false = .ok (some (key, taken)) ∧
      (s.put key (final taken)).Admits c es := by
  constructor
  · intro admits
    obtain ⟨key, taken, decided⟩ := admits.first h
    exact ⟨key, taken, decided, admits.rest h light decided⟩
  · rintro ⟨key, taken, decided, admits⟩
    exact admits.cons h light decided

end Shelf

namespace Store

variable {c : Catalog} {s t : Store} {items others : List (Node ⊕ Event)}

/-! ## One by one -/

/-- Add nodes and events one by one, and note the answer to each of them. -/
def addEach (c : Catalog) (s : Store) : List (Node ⊕ Event) → List (Except StoreError Bool) × Store
  | [] => ([], s)
  | item :: rest =>
      let (answer, s) := s.addItem c item
      let (answers, s) := s.addEach c rest
      (answer :: answers, s)

/-- Each one of the nodes and events is taken in. -/
def AddsEach (c : Catalog) (s : Store) (items : List (Node ⊕ Event)) : Prop :=
  ∀ answer ∈ (s.addEach c items).1, answer = .ok true

instance : Decidable (AddsEach c s items) :=
  inferInstanceAs (Decidable (∀ answer ∈ (s.addEach c items).1, answer = .ok true))

def nodesIn (items : List (Node ⊕ Event)) : List Node := items.filterMap Sum.getLeft?

def eventsIn (items : List (Node ⊕ Event)) : List Event := items.filterMap Sum.getRight?

theorem addsEach_cons_iff {item : Node ⊕ Event} {rest : List (Node ⊕ Event)} :
    s.AddsEach c (item :: rest) ↔
      (s.addItem c item).1 = .ok true ∧ (s.addItem c item).2.AddsEach c rest :=
  List.forall_mem_cons

theorem Consistent.addItem (h : s.Consistent) (c : Catalog) (item : Node ⊕ Event) :
    (s.addItem c item).2.Consistent := by
  cases item with
  | inl n => exact h.addNode c n false
  | inr e => exact h.addEvent c e false

theorem Consistent.addEach (h : s.Consistent) (c : Catalog) (items : List (Node ⊕ Event)) :
    (s.addEach c items).2.Consistent := by
  induction items generalizing s with
  | nil => exact h
  | cons item rest ih => exact ih (h.addItem c item)

/-- All are taken in exactly when the shelves admit the nodes and the events among them. -/
theorem Consistent.addsEach_iff (h : s.Consistent) : s.AddsEach c items ↔
    s.nodes.Admits c (nodesIn items) ∧ s.events.Admits c (eventsIn items) := by
  induction items generalizing s with
  | nil => simp [AddsEach, Store.addEach, nodesIn, eventsIn, Shelf.admits_nil]
  | cons item rest ih =>
      have later := ih (h.addItem c item)
      rw [addsEach_cons_iff]
      cases item with
      | inl n =>
          change _ ↔ s.nodes.Admits c (n :: nodesIn rest) ∧ s.events.Admits c (eventsIn rest)
          rw [h.nodes.admits_cons_iff light_id]
          rw [Store.addItem, addNode_eq] at later ⊢
          rcases decided : s.nodes.verdict c n false with cause | _ | ⟨key, taken⟩
          · simp
          · simp
          · simp only [decided, withNode_of_verdict decided] at later
            simp [later, withNode_of_verdict decided]
      | inr e =>
          change _ ↔ s.nodes.Admits c (nodesIn rest) ∧ s.events.Admits c (e :: eventsIn rest)
          rw [h.events.admits_cons_iff (light_withMembership c)]
          rw [Store.addItem, addEvent_eq] at later ⊢
          rcases decided : s.events.verdict c e false with cause | _ | ⟨key, taken⟩
          · simp
          · simp
          · simp only [decided, events_withEvent_of_verdict decided, nodes_withEvent] at later
            simp [later]

/-- The entries that come of the nodes among the items. -/
def nodesAdded (c : Catalog) (items : List (Node ⊕ Event)) : List (String × Node) :=
  ((nodesIn items).filterMap Entity.keyed?).map (Shelf.settled c id)

/-- The entries that come of the events among the items. -/
def eventsAdded (c : Catalog) (items : List (Node ⊕ Event)) : List (String × Event) :=
  ((eventsIn items).filterMap Entity.keyed?).map (Shelf.settled c (Event.withMembership c))

theorem nodesAdded_cons (c : Catalog) (item : Node ⊕ Event) (rest : List (Node ⊕ Event)) :
    nodesAdded c (item :: rest) = nodesAdded c [item] ++ nodesAdded c rest := by
  rw [← List.singleton_append]
  simp only [nodesAdded, nodesIn, List.filterMap_append, List.map_append]

theorem eventsAdded_cons (c : Catalog) (item : Node ⊕ Event) (rest : List (Node ⊕ Event)) :
    eventsAdded c (item :: rest) = eventsAdded c [item] ++ eventsAdded c rest := by
  rw [← List.singleton_append]
  simp only [eventsAdded, eventsIn, List.filterMap_append, List.map_append]

theorem Consistent.entries_addItem (h : s.Consistent) {item : Node ⊕ Event}
    (added : (s.addItem c item).1 = .ok true) :
    (s.addItem c item).2.nodes.entries.entries =
        s.nodes.entries.entries ++ nodesAdded c [item] ∧
      (s.addItem c item).2.events.entries.entries =
        s.events.entries.entries ++ eventsAdded c [item] := by
  cases item with
  | inl n =>
      rw [Store.addItem, addNode_eq] at added ⊢
      rcases decided : s.nodes.verdict c n false with cause | _ | ⟨key, taken⟩
      · simp [decided] at added
      · simp [decided] at added
      · obtain ⟨room, -⟩ := (Shelf.verdict_eq_given_iff h.nodes).mp decided
        simp only [withNode_of_verdict decided]
        rw [← id_eq taken, h.nodes.entries_put_of_verdict id decided]
        simp [nodesAdded, eventsAdded, nodesIn, eventsIn, Shelf.keyed?_of_room room]
  | inr e =>
      rw [Store.addItem, addEvent_eq] at added ⊢
      rcases decided : s.events.verdict c e false with cause | _ | ⟨key, taken⟩
      · simp [decided] at added
      · simp [decided] at added
      · obtain ⟨room, -⟩ := (Shelf.verdict_eq_given_iff h.events).mp decided
        simp only [events_withEvent_of_verdict decided, nodes_withEvent]
        rw [h.events.entries_put_of_verdict (Event.withMembership c) decided]
        simp [nodesAdded, eventsAdded, nodesIn, eventsIn, Shelf.keyed?_of_room room]

/-- What is taken in stands behind what was there. -/
theorem Consistent.entries_addEach (h : s.Consistent) (added : s.AddsEach c items) :
    (s.addEach c items).2.nodes.entries.entries =
        s.nodes.entries.entries ++ nodesAdded c items ∧
      (s.addEach c items).2.events.entries.entries =
        s.events.entries.entries ++ eventsAdded c items := by
  induction items generalizing s with
  | nil => exact ⟨(List.append_nil _).symm, (List.append_nil _).symm⟩
  | cons item rest ih =>
      obtain ⟨first, added⟩ := addsEach_cons_iff.mp added
      obtain ⟨nodes, events⟩ := h.entries_addItem first
      obtain ⟨laterNodes, laterEvents⟩ := ih (h.addItem c item) added
      rw [nodesAdded_cons, eventsAdded_cons, ← List.append_assoc, ← List.append_assoc, ← nodes,
        ← events]
      exact ⟨laterNodes, laterEvents⟩

/-! ## In another order -/

/-- Two stores that hold the same, and differ at most in the orders in which they list it. -/
structure HoldSame (s t : Store) : Prop where
  nodes (key : String) : t.nodes.get? key = s.nodes.get? key
  nodeHolders : t.nodes.holders = s.nodes.holders
  events (key : String) : t.events.get? key = s.events.get? key
  eventHolders : t.events.holders = s.events.holders
  types (typeName : String) : t.groups.contains typeName = s.groups.contains typeName
  groups (typeName : String) : ((t.groups.get? typeName).getD .empty).members.Perm
    ((s.groups.get? typeName).getD .empty).members
  incident (node : String) : (t.incidentEvents node).Perm (s.incidentEvents node)

theorem keysOfType_perm {entries others : List (String × Event)} (perm : entries.Perm others)
    (typeName : String) : (keysOfType entries typeName).Perm (keysOfType others typeName) :=
  (perm.filter _).map _

theorem Consistent.holdSame (h : s.Consistent) (h' : t.Consistent)
    (nodes : t.nodes.entries.entries.Perm s.nodes.entries.entries)
    (events : t.events.entries.entries.Perm s.events.entries.entries) : s.HoldSame t where
  nodes := Shelf.get?_of_perm nodes
  nodeHolders := h.nodes.holders_eq h'.nodes fun key => by rw [Shelf.get?_of_perm nodes key]
  events := Shelf.get?_of_perm events
  eventHolders := h.events.holders_eq h'.events fun key => by rw [Shelf.get?_of_perm events key]
  types typeName := by
    rw [Bool.eq_iff_iff, h'.groups.held, h.groups.held]
    simp only [ne_eq, ← List.length_eq_zero_iff, (keysOfType_perm events typeName).length_eq]
  groups typeName := by
    rw [h'.groups.members, h.groups.members]
    exact keysOfType_perm events typeName
  incident := h.perm_incidentEvents h' events

/-- When nodes and events are all taken in, they are so in every other order, and the store then
    holds the same. -/
theorem Consistent.order_irrelevant (h : s.Consistent) (perm : items.Perm others)
    (added : s.AddsEach c items) :
    s.AddsEach c others ∧ (s.addEach c items).2.HoldSame (s.addEach c others).2 := by
  have nodesPerm : (nodesIn items).Perm (nodesIn others) := perm.filterMap _
  have eventsPerm : (eventsIn items).Perm (eventsIn others) := perm.filterMap _
  have addedToo : s.AddsEach c others := by
    obtain ⟨nodes, events⟩ := h.addsEach_iff.mp added
    exact h.addsEach_iff.mpr ⟨nodes.perm nodesPerm, events.perm eventsPerm⟩
  refine ⟨addedToo, (h.addEach c items).holdSame (h.addEach c others) ?_ ?_⟩
  · rw [(h.entries_addEach added).1, (h.entries_addEach addedToo).1]
    exact ((nodesPerm.filterMap _).map _).symm.append_left _
  · rw [(h.entries_addEach added).2, (h.entries_addEach addedToo).2]
    exact ((eventsPerm.filterMap _).map _).symm.append_left _

/-- A road may come before the towns at its ends, and the towns in any order. -/
theorem road_before_towns :
    let road := Event.between "Road" "r" (.named "Town" "a") (.named "Town" "b")
    let items := [.inl (townOf "m" "a"), .inl (townOf "k" "b"), .inr road]
    let s := (Store.empty.addEach mayorCatalog items).2
    let t := (Store.empty.addEach mayorCatalog items.reverse).2
    Store.empty.AddsEach mayorCatalog items ∧ Store.empty.AddsEach mayorCatalog items.reverse ∧
      s.nodes.entries.keys = ["Towna", "Townb"] ∧ t.nodes.entries.keys = ["Townb", "Towna"] ∧
      s.HoldSame t := by
  intro road items s t
  have added : Store.empty.AddsEach mayorCatalog items := by decide +kernel
  have perm : items.Perm items.reverse := (List.reverse_perm items).symm
  obtain ⟨addedToo, same⟩ := Consistent.empty.order_irrelevant perm added
  exact ⟨added, addedToo, by decide +kernel, by decide +kernel, same⟩

end Store

end SchemaGraph
