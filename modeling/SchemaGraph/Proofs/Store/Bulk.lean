import SchemaGraph.Proofs.Store.Contents

/-! # Lists of entities

An operation that takes in a list goes through it item by item, and stops at the first one that
is refused. What the items in front of it have made by then stays, and what was cleared for them
stays away.
-/

namespace SchemaGraph.Store

variable {c : Catalog} {s s' : Store} {cause : StoreError}

/-- Add a node or an event, unless its place is taken. -/
def addItem (c : Catalog) (s : Store) : Node ⊕ Event → Answered Bool
  | .inl n => s.addNode c n false
  | .inr e => s.addEvent c e false

/-- Add nodes and events as long as none fails. -/
def addItems (c : Catalog) (s : Store) : List (Node ⊕ Event) → Answered Unit
  | [] => (.ok (), s)
  | item :: rest =>
      match s.addItem c item with
      | (.ok _, s) => s.addItems c rest
      | (.error e, s) => (.error e, s)

/-- Copies of all nodes and then of all events. -/
def items (s : Store) : List (Node ⊕ Event) :=
  s.detachedNodes.map .inl ++ (s.events.values.map Event.detached).map .inr

theorem addNodes_eq_addItems (nodes : List Node) (s : Store) :
    s.addNodes c nodes = s.addItems c (nodes.map .inl) := by
  induction nodes generalizing s with
  | nil => rfl
  | cons n rest ih =>
      rw [addNodes, List.map_cons, addItems, addItem]
      rcases s.addNode c n false with ⟨cause | answer, s'⟩
      · rfl
      · exact ih s'

theorem addEvents_eq_addItems (events : List Event) (s : Store) :
    s.addEvents c events = s.addItems c (events.map .inr) := by
  induction events generalizing s with
  | nil => rfl
  | cons e rest ih =>
      rw [addEvents, List.map_cons, addItems, addItem]
      rcases s.addEvent c e false with ⟨cause | answer, s'⟩
      · rfl
      · exact ih s'

theorem addItems_append (before after : List (Node ⊕ Event)) (s : Store) :
    s.addItems c (before ++ after) = match s.addItems c before with
      | (.ok _, s) => s.addItems c after
      | (.error e, s) => (.error e, s) := by
  induction before generalizing s with
  | nil => rfl
  | cons item rest ih =>
      rw [List.cons_append, addItems, addItems]
      rcases s.addItem c item with ⟨cause | answer, s'⟩
      · rfl
      · exact ih s'

theorem merge_eq_addItems (c : Catalog) (s other : Store) :
    s.merge c other = s.addItems c other.items := by
  rw [merge, addNodes_eq_addItems, items, addItems_append]
  rcases s.addItems c (other.detachedNodes.map .inl) with ⟨cause | answer, s'⟩
  · rfl
  · exact addEvents_eq_addItems ..

/-! ## One item -/

/-- How many nodes and events there are. -/
def size (s : Store) : Nat := s.nodes.entries.size + s.events.entries.size

theorem size_withNode {key : String} (n : Node) (absent : s.nodes.contains key = false) :
    (s.withNode key n).size = s.size + 1 := by
  have entries := OrderedMap.entries_insert_of_absent n absent
  simp only [size, withNode, Shelf.remove_of_absent absent, Shelf.put, OrderedMap.size]
  rw [entries, List.length_append, List.length_singleton]
  omega

theorem size_withEvent {key : String} (e : Event) (absent : s.events.contains key = false) :
    (s.withEvent key e).size = s.size + 1 := by
  have entries := entries_withEvent s key e
  have nodes : (s.withEvent key e).nodes = s.nodes := nodes_removeEventAt s key
  rw [Entries.without_of_absent ((s.events.entries.contains_eq_false_iff key).mp absent)] at entries
  simp only [size, nodes, OrderedMap.size, entries, List.length_append, List.length_singleton]
  omega

/-- An item is refused, or left out, and nothing changes; or there is one more than before. -/
theorem addItem_cases (c : Catalog) (s : Store) (item : Node ⊕ Event) :
    (∃ cause, s.addItem c item = (.error cause, s)) ∨ s.addItem c item = (.ok false, s) ∨
      ∃ s', s.addItem c item = (.ok true, s') ∧ s'.size = s.size + 1 := by
  cases item with
  | inl n =>
      rw [addItem, addNode_eq]
      cases decided : s.nodes.verdict c n false with
      | error cause => exact Or.inl ⟨cause, rfl⟩
      | ok given =>
          rcases given with _ | ⟨key, taken⟩
          · exact Or.inr (Or.inl rfl)
          · obtain ⟨_, free, _⟩ := Shelf.verdict_eq_some_iff.mp decided
            exact Or.inr (Or.inr ⟨_, rfl, size_withNode taken (free rfl)⟩)
  | inr e =>
      rw [addItem, addEvent_eq]
      cases decided : s.events.verdict c e false with
      | error cause => exact Or.inl ⟨cause, rfl⟩
      | ok given =>
          rcases given with _ | ⟨key, taken⟩
          · exact Or.inr (Or.inl rfl)
          · obtain ⟨_, free, _⟩ := Shelf.verdict_eq_some_iff.mp decided
            exact Or.inr (Or.inr ⟨_, rfl, size_withEvent _ (free rfl)⟩)

/-! ## Where it stops -/

/-- A list fails at the first item that is refused, by what the items in front of it have made. -/
theorem addItems_eq_error_iff {items : List (Node ⊕ Event)} :
    s.addItems c items = (.error cause, s') ↔ ∃ before item after,
      items = before ++ item :: after ∧ s.addItems c before = (.ok (), s') ∧
        s'.addItem c item = (.error cause, s') := by
  constructor
  · intro failed
    induction items generalizing s with
    | nil => cases failed
    | cons item rest ih =>
        have later {t : Store} {answer : Bool} (here : s.addItem c item = (.ok answer, t)) :
            ∃ before refused after, item :: rest = before ++ refused :: after ∧
              s.addItems c before = (.ok (), s') ∧
                s'.addItem c refused = (.error cause, s') := by
          rw [addItems, here] at failed
          obtain ⟨before, refused, after, rfl, made, refusal⟩ := ih failed
          refine ⟨item :: before, refused, after, rfl, ?_, refusal⟩
          rw [addItems, here]
          exact made
        rcases addItem_cases c s item with ⟨reason, here⟩ | here | ⟨t, here, _⟩
        · rw [addItems, here] at failed
          cases failed
          exact ⟨[], item, rest, rfl, rfl, here⟩
        · exact later here
        · exact later here
  · rintro ⟨before, item, after, rfl, made, refusal⟩
    rw [addItems_append, made]
    simp only [addItems, refusal]

theorem size_addItems (items : List (Node ⊕ Event)) (s : Store) :
    s.size ≤ (s.addItems c items).2.size := by
  induction items generalizing s with
  | nil => exact Nat.le_refl _
  | cons item rest ih =>
      rw [addItems]
      rcases addItem_cases c s item with ⟨cause, here⟩ | here | ⟨t, here, grown⟩
      · simp only [here, Nat.le_refl]
      · rw [here]
        exact ih s
      · rw [here]
        have later := ih t
        dsimp only
        omega

theorem addNodes_eq_error_iff {nodes : List Node} :
    s.addNodes c nodes = (.error cause, s') ↔ ∃ before n after, nodes = before ++ n :: after ∧
      s.addNodes c before = (.ok (), s') ∧ s'.addNode c n false = (.error cause, s') := by
  simp only [addNodes_eq_addItems, addItems_eq_error_iff, List.map_eq_append_iff,
    List.map_eq_cons_iff]
  constructor
  · rintro ⟨_, _, _, ⟨before, _, rfl, rfl, n, after, rfl, rfl, rfl⟩, made, refusal⟩
    exact ⟨before, n, after, rfl, made, refusal⟩
  · rintro ⟨before, n, after, rfl, made, refusal⟩
    exact ⟨_, _, _, ⟨before, n :: after, rfl, rfl, n, after, rfl, rfl, rfl⟩, made, refusal⟩

theorem addEvents_eq_error_iff {events : List Event} :
    s.addEvents c events = (.error cause, s') ↔ ∃ before e after, events = before ++ e :: after ∧
      s.addEvents c before = (.ok (), s') ∧ s'.addEvent c e false = (.error cause, s') := by
  simp only [addEvents_eq_addItems, addItems_eq_error_iff, List.map_eq_append_iff,
    List.map_eq_cons_iff]
  constructor
  · rintro ⟨_, _, _, ⟨before, _, rfl, rfl, e, after, rfl, rfl, rfl⟩, made, refusal⟩
    exact ⟨before, e, after, rfl, made, refusal⟩
  · rintro ⟨before, e, after, rfl, made, refusal⟩
    exact ⟨_, _, _, ⟨before, e :: after, rfl, rfl, e, after, rfl, rfl, rfl⟩, made, refusal⟩

/-- Items that can all be added leave a store alone exactly when it leaves each of them out. -/
theorem addItems_eq_self_iff {items : List (Node ⊕ Event)}
    (made : s.addItems c items = (.ok (), s')) :
    s' = s ↔ ∀ item ∈ items, s.addItem c item = (.ok false, s) := by
  induction items with
  | nil =>
      cases made
      simp
  | cons item rest ih =>
      rw [addItems] at made
      rw [List.forall_mem_cons]
      rcases addItem_cases c s item with ⟨cause, here⟩ | here | ⟨t, here, grown⟩
      · rw [here] at made
        cases made
      · rw [here] at made
        simp only [here, true_and]
        exact ih made
      · -- what is taken in is never given away again
        rw [here] at made
        have grows := size_addItems (c := c) rest t
        simp only [made] at grows
        constructor
        · rintro rfl
          omega
        · rintro ⟨left, _⟩
          rw [here] at left
          cases left

/-! ## What it leaves alone -/

theorem addNodes_nodes (nodes : List Node) (s t : Store) :
    addNodes c { t with nodes := s.nodes } nodes =
      ((s.addNodes c nodes).1, { t with nodes := (s.addNodes c nodes).2.nodes }) := by
  induction nodes generalizing s with
  | nil => rfl
  | cons n rest ih =>
      rw [addNodes, addNodes, addNode_eq, addNode_eq]
      rcases s.nodes.verdict c n false with cause | _ | ⟨key, taken⟩
      · rfl
      · exact ih s
      · exact ih (s.withNode key taken)

theorem withEvent_nodes (s : Store) (nodes : Shelf Node) (key : String) (e : Event) :
    withEvent { s with nodes } key e = { s.withEvent key e with nodes } := by
  simp only [withEvent, removeEventAt, Shelf.remove]
  cases s.events.get? key <;> rfl

theorem addEvents_nodes (events : List Event) (s : Store) (nodes : Shelf Node) :
    addEvents c { s with nodes } events =
      ((s.addEvents c events).1, { (s.addEvents c events).2 with nodes }) := by
  induction events generalizing s with
  | nil => rfl
  | cons e rest ih =>
      rw [addEvents, addEvents, addEvent_eq, addEvent_eq]
      rcases s.events.verdict c e false with cause | _ | ⟨key, taken⟩
      · rfl
      · exact ih s
      · dsimp only
        rw [withEvent_nodes]
        exact ih (s.withEvent key (taken.withMembership c))

/-! ## How lists fail -/

/-- How the operations that take in a list of nodes, of events, or another store fail. -/
structure FailsPartway (c : Catalog) (s : Store) : Prop where
  /-- The nodes in front of the one that is refused have taken the place of all nodes. -/
  setNodes (nodes : List Node) (cause : StoreError) (s' : Store) :
    s.setNodes c nodes = (.error cause, s') ↔ ∃ before n after made,
      nodes = before ++ n :: after ∧ Store.empty.addNodes c before = (.ok (), made) ∧
        made.addNode c n false = (.error cause, made) ∧ s' = { s with nodes := made.nodes }
  /-- The events in front of the one that is refused have taken the place of all events. -/
  setEvents (events : List Event) (cause : StoreError) (s' : Store) :
    s.setEvents c events = (.error cause, s') ↔ ∃ before e after made,
      events = before ++ e :: after ∧ Store.empty.addEvents c before = (.ok (), made) ∧
        made.addEvent c e false = (.error cause, made) ∧ s' = { made with nodes := s.nodes }
  /-- What comes in front of the one that is refused has been added. -/
  merge (other : Store) (cause : StoreError) (s' : Store) :
    s.merge c other = (.error cause, s') ↔ ∃ before item after,
      other.items = before ++ item :: after ∧ s.addItems c before = (.ok (), s') ∧
        s'.addItem c item = (.error cause, s')
  /-- So a merge that fails leaves the store as it was when nothing in front was new to it. -/
  merge_untouched (before : List (Node ⊕ Event)) (s' : Store) :
    s.addItems c before = (.ok (), s') →
      (s' = s ↔ ∀ item ∈ before, s.addItem c item = (.ok false, s))

/-- What an operation on a list leaves behind when it fails is what the items in front of the
    refused one have made, and not what was there. -/
theorem fails_partway (c : Catalog) (s : Store) : s.FailsPartway c where
  setNodes nodes cause s' := by
    have cleared : s.setNodes c nodes = ((Store.empty.addNodes c nodes).1,
        { s with nodes := (Store.empty.addNodes c nodes).2.nodes }) :=
      addNodes_nodes nodes .empty s
    rw [cleared]
    constructor
    · intro failed
      obtain ⟨answer, rfl⟩ := Prod.mk.inj failed
      obtain ⟨before, n, after, split, made, refusal⟩ :=
        addNodes_eq_error_iff.mp (Prod.ext answer rfl)
      exact ⟨before, n, after, _, split, made, refusal, rfl⟩
    · rintro ⟨before, n, after, made, split, making, refusal, rfl⟩
      rw [addNodes_eq_error_iff.mpr ⟨before, n, after, split, making, refusal⟩]
  setEvents events cause s' := by
    have cleared : s.setEvents c events = ((Store.empty.addEvents c events).1,
        { (Store.empty.addEvents c events).2 with nodes := s.nodes }) :=
      addEvents_nodes events .empty s.nodes
    rw [cleared]
    constructor
    · intro failed
      obtain ⟨answer, rfl⟩ := Prod.mk.inj failed
      obtain ⟨before, e, after, split, made, refusal⟩ :=
        addEvents_eq_error_iff.mp (Prod.ext answer rfl)
      exact ⟨before, e, after, _, split, made, refusal, rfl⟩
    · rintro ⟨before, e, after, made, split, making, refusal, rfl⟩
      rw [addEvents_eq_error_iff.mpr ⟨before, e, after, split, making, refusal⟩]
  merge other cause s' := by
    rw [merge_eq_addItems]
    exact addItems_eq_error_iff
  merge_untouched before s' made := addItems_eq_self_iff made

/-- A catalog of towns without two of one mayor. -/
def mayorCatalog : Catalog :=
  let town : NodeDefinition := { name := "Town", uniqueIndex := ["mayor"] }
  (Catalog.empty.putNode town false).toOption.getD .empty

def townOf (mayor id : String) : Node :=
  Entity.setProperty (.named "Town" id) "mayor" (.text mayor)

/-- Two towns of one mayor are to take the place of another town. The second of them is refused;
    by then the other town is gone, and the first one has come. A merge keeps the first one too. -/
theorem partial_towns_stay :
    let s := (Store.empty.addNode mayorCatalog (townOf "m" "z") false).2
    let two := s.setNodes mayorCatalog [townOf "k" "a", townOf "k" "b"]
    let other := ((Store.empty.addNode mayorCatalog (townOf "k" "a") false).2.addNode mayorCatalog
      (townOf "m" "b") false).2
    let merged := s.merge mayorCatalog other
    s.nodes.entries.keys = ["Townz"] ∧
      two.1.isOk = false ∧ two.2.nodes.entries.keys = ["Towna"] ∧
      merged.1.isOk = false ∧ merged.2.nodes.entries.keys = ["Townz", "Towna"] := by
  decide +kernel

end SchemaGraph.Store
