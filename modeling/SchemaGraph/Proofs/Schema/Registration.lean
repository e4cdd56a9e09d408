import SchemaGraph.Proofs.Schema.Loading

/-! # The order of registration

Node and event types can be registered in every order in which an event type comes behind the
node types that it joins, and the catalog is always the same. It is also the same whether a node
type is removed, with the event types that touch it, or was never registered.
-/

namespace SchemaGraph

/-- A definition that is to be registered. -/
inductive Declaration where
  | node (d : NodeDefinition)
  | event (d : EventDefinition)

namespace Declaration

def node? : Declaration → Option NodeDefinition
  | node d => some d
  | event _ => none

def event? : Declaration → Option EventDefinition
  | node _ => none
  | event d => some d

/-- Take the definition into a catalog that does not have it yet. -/
def put (c : Catalog) : Declaration → Except CatalogError Catalog
  | node d => c.putNode d false
  | event d => c.putEvent d false

/-- The node types that are declared, by name. -/
def names (order : List Declaration) : List String :=
  (order.filterMap node?).map NodeDefinition.name

end Declaration

/-- Definitions of different node types, and of different event types between them. -/
structure Declarations where
  nodes : List NodeDefinition
  events : List EventDefinition
  distinctNodes : (nodes.map NodeDefinition.name).Nodup
  distinctEvents : (events.map EventDefinition.key).Nodup
  joined : ∀ d ∈ events,
    d.key.left ∈ nodes.map NodeDefinition.name ∧ d.key.right ∈ nodes.map NodeDefinition.name

namespace Declarations

/-- All definitions in an order in which an event type comes behind the node types that it
    joins. -/
structure Lists (s : Declarations) (order : List Declaration) : Prop where
  nodes : (order.filterMap Declaration.node?).Perm s.nodes
  events : (order.filterMap Declaration.event?).Perm s.events
  endsFirst : ∀ before d after, order = before ++ .event d :: after →
    d.key.left ∈ Declaration.names before ∧ d.key.right ∈ Declaration.names before

/-- It is enough to look at each place of the order. -/
theorem lists_iff {s : Declarations} {order : List Declaration} : s.Lists order ↔
    (order.filterMap Declaration.node?).Perm s.nodes ∧
    (order.filterMap Declaration.event?).Perm s.events ∧
    ∀ place < order.length, ∀ d ∈ order[place]?.bind Declaration.event?,
      d.key.left ∈ Declaration.names (order.take place) ∧
        d.key.right ∈ Declaration.names (order.take place) := by
  constructor
  · intro h
    refine ⟨h.nodes, h.events, fun place inside d found => ?_⟩
    obtain ⟨declaration, here, isEvent⟩ := Option.bind_eq_some_iff.mp found
    cases declaration with
    | node n => cases isEvent
    | event e =>
        cases isEvent
        obtain ⟨_, here⟩ := List.getElem?_eq_some_iff.mp here
        refine h.endsFirst _ d (order.drop (place + 1)) ?_
        rw [← here, List.getElem_cons_drop, List.take_append_drop]
  · rintro ⟨nodes, events, behind⟩
    refine ⟨nodes, events, ?_⟩
    rintro before d after rfl
    simpa using behind before.length (by simp) d (by simp [Declaration.event?])

instance (s : Declarations) (order : List Declaration) : Decidable (s.Lists order) :=
  decidable_of_iff _ lists_iff.symm

/-- The definitions without a node type and the event types that touch it. -/
def without (s : Declarations) (name : String) : Declarations where
  nodes := s.nodes.filter fun d => d.name ≠ name
  events := s.events.filter fun d => !d.touches name
  distinctNodes := s.distinctNodes.sublist (List.filter_sublist.map _)
  distinctEvents := s.distinctEvents.sublist (List.filter_sublist.map _)
  joined := by
    intro d inside
    obtain ⟨listed, apart⟩ := List.mem_filter.mp inside
    have away : d.key.left ≠ name ∧ d.key.right ≠ name := by
      simpa [EventDefinition.touches, EventKey.touches] using apart
    have stays {other : String} (defined : other ∈ s.nodes.map NodeDefinition.name)
        (different : other ≠ name) :
        other ∈ (s.nodes.filter fun d => d.name ≠ name).map NodeDefinition.name := by
      obtain ⟨n, isNode, rfl⟩ := List.mem_map.mp defined
      exact List.mem_map_of_mem (List.mem_filter.mpr ⟨isNode, decide_eq_true different⟩)
    exact ⟨stays (s.joined d listed).1 away.1, stays (s.joined d listed).2 away.2⟩

/-- The catalog in which everything is filed under what it is told apart by. -/
def catalog (s : Declarations) : Catalog :=
  { Catalog.empty with nodes := .filed NodeDefinition.name NodeDefinition.normalized s.nodes }
    |>.withEvents (.filed EventDefinition.key EventDefinition.normalized s.events)

end Declarations

namespace Catalog

/-- Register definitions one after the other, starting without any. -/
def register (order : List Declaration) : Except CatalogError Catalog :=
  order.foldlM Declaration.put .empty

/-! ## One declaration after the other -/

/-- Nothing is in the way of the declarations: each is of something new, and an event type joins
    node types that are there already or come in front of it. -/
structure Registrable (c : Catalog) (order : List Declaration) : Prop where
  distinctNodes : (Declaration.names order).Nodup
  distinctEvents : ((order.filterMap Declaration.event?).map EventDefinition.key).Nodup
  newNodes : ∀ name ∈ Declaration.names order, c.nodes.contains name = false
  newEvents : ∀ d ∈ order.filterMap Declaration.event?, c.events.contains d.key = false
  endsFirst : ∀ before d after, order = before ++ .event d :: after →
    ∀ node, node = d.key.left ∨ node = d.key.right →
      c.nodes.contains node = true ∨ node ∈ Declaration.names before
  indexed : c.incident = .ofDefinitions c.events.values

variable {c : Catalog} {rest order : List Declaration}

theorem Registrable.behindNode {d : NodeDefinition} (h : c.Registrable (.node d :: rest)) :
    Registrable { c with nodes := c.nodes.insert d.name d.normalized } rest := by
  obtain ⟨fresh, distinct⟩ := List.nodup_cons.mp h.distinctNodes
  refine ⟨distinct, h.distinctEvents, fun name inside => ?_, h.newEvents, ?_, h.indexed⟩
  · have before := h.newNodes name (List.mem_cons_of_mem _ inside)
    have different : name ≠ d.name := fun same => fresh (same ▸ inside)
    rw [← Bool.not_eq_true, SortedMap.contains_insert]
    simp [different, before]
  · rintro before e after rfl node isEnd
    rw [SortedMap.contains_insert]
    rcases h.endsFirst (.node d :: before) e after rfl node isEnd with held | earlier
    · exact .inl (.inr held)
    · exact (List.mem_cons.mp earlier).imp .inl id

theorem Registrable.behindEvent {d : EventDefinition} (h : c.Registrable (.event d :: rest)) :
    (c.withEvents (c.events.insert d.key d.normalized)).Registrable rest := by
  obtain ⟨fresh, distinct⟩ := List.nodup_cons.mp h.distinctEvents
  refine ⟨h.distinctNodes, distinct, h.newNodes, fun e inside => ?_, ?_, rfl⟩
  · have before := h.newEvents e (List.mem_cons_of_mem d inside)
    have different : e.key ≠ d.key := fun same => fresh (List.mem_map.mpr ⟨e, inside, same⟩)
    rw [← Bool.not_eq_true]
    change ¬ (c.events.insert d.key d.normalized).contains e.key = true
    rw [SortedMap.contains_insert]
    simp [different, before]
  · rintro before e after rfl
    exact h.endsFirst (.event d :: before) e after rfl

theorem Registrable.joins {d : EventDefinition} (h : c.Registrable (.event d :: rest)) :
    Joins c.nodes d.key := by
  have held (node : String) (isEnd : node = d.key.left ∨ node = d.key.right) :
      c.nodes.contains node = true :=
    (h.endsFirst [] d rest rfl node isEnd).elim id fun earlier => nomatch earlier
  exact ⟨held _ (.inl rfl), held _ (.inr rfl)⟩

theorem Registrable.foldlM_put (h : c.Registrable order) :
    order.foldlM Declaration.put c = .ok
      (Catalog.withEvents { c with
          nodes := (order.filterMap Declaration.node?).foldl
            (fun nodes (d : NodeDefinition) => nodes.insert d.name d.normalized) c.nodes }
        ((order.filterMap Declaration.event?).foldl
          (fun events (d : EventDefinition) => events.insert d.key d.normalized) c.events)) := by
  induction order generalizing c with
  | nil =>
      have same : c.withEvents c.events = c := by rw [withEvents, ← h.indexed]
      exact congrArg Except.ok same.symm
  | cons declaration rest ih =>
      cases declaration with
      | node d =>
          have absent := h.newNodes d.name List.mem_cons_self
          rw [List.foldlM_cons, Declaration.put, putNode_of_absent absent]
          exact ih h.behindNode
      | event d =>
          have absent := h.newEvents d List.mem_cons_self
          rw [List.foldlM_cons, Declaration.put, putEvent_of_absent absent, if_pos h.joins]
          exact ih h.behindEvent

theorem reached_of_register (registered : register order = .ok c) : c.Reached := by
  refine Outcome.foldlM_keeps (fun {before declaration next} reached put => ?_) .empty registered
  cases declaration with
  | node d => exact reached.putNode d false put
  | event d => exact reached.putEvent d false put

end Catalog

namespace Declarations

variable {s : Declarations} {order : List Declaration}

theorem Lists.registrable (h : s.Lists order) : Catalog.empty.Registrable order where
  distinctNodes := (h.nodes.map _).nodup_iff.mpr s.distinctNodes
  distinctEvents := (h.events.map _).nodup_iff.mpr s.distinctEvents
  newNodes _ _ := rfl
  newEvents _ _ := rfl
  endsFirst := by
    rintro before d after split node (rfl | rfl)
    · exact .inr (h.endsFirst before d after split).1
    · exact .inr (h.endsFirst before d after split).2
  indexed := rfl

theorem Lists.register_eq (h : s.Lists order) : Catalog.register order = .ok s.catalog := by
  have nodes : SortedMap.filed NodeDefinition.name NodeDefinition.normalized
      (order.filterMap Declaration.node?) = .filed _ _ s.nodes :=
    SortedMap.filed_perm h.registrable.distinctNodes h.nodes
  have events : SortedMap.filed EventDefinition.key EventDefinition.normalized
      (order.filterMap Declaration.event?) = .filed _ _ s.events :=
    SortedMap.filed_perm h.registrable.distinctEvents h.events
  rw [catalog, ← nodes, ← events]
  exact h.registrable.foldlM_put

/-- Node types can all be registered before the first event type. -/
theorem exists_lists (s : Declarations) : ∃ order, s.Lists order := by
  have ofNodes (nodes : List NodeDefinition) :
      (nodes.map Declaration.node).filterMap Declaration.node? = nodes := by
    rw [List.filterMap_map]
    exact List.filterMap_some
  have ofEvents (events : List EventDefinition) :
      (events.map Declaration.event).filterMap Declaration.event? = events := by
    rw [List.filterMap_map]
    exact List.filterMap_some
  have noNodes (events : List EventDefinition) :
      (events.map Declaration.event).filterMap Declaration.node? = [] := by
    simp [List.filterMap_eq_nil_iff, Declaration.node?]
  have noEvents (nodes : List NodeDefinition) :
      (nodes.map Declaration.node).filterMap Declaration.event? = [] := by
    simp [List.filterMap_eq_nil_iff, Declaration.event?]
  refine ⟨s.nodes.map .node ++ s.events.map .event, ?_, ?_, ?_⟩
  · rw [List.filterMap_append, ofNodes, noNodes, List.append_nil]
  · rw [List.filterMap_append, noEvents, ofEvents, List.nil_append]
  · intro before d after split
    have listed : d ∈ s.events := by
      have inside : Declaration.event d ∈ s.nodes.map .node ++ s.events.map .event := by
        rw [split]
        exact List.mem_append_right _ List.mem_cons_self
      simpa using inside
    -- an event type is only in the second part, so all of the first part is in front of it
    obtain ⟨between, rfl⟩ : ∃ between, before = s.nodes.map .node ++ between := by
      rcases List.append_eq_append_iff.mp split with ⟨between, front, _⟩ | ⟨between, front, back⟩
      · exact ⟨between, front⟩
      · cases between with
        | nil => exact ⟨[], by simp [front]⟩
        | cons first more =>
            have isNode : first ∈ s.nodes.map Declaration.node := by simp [front]
            simp [(List.cons.inj back).1.symm] at isNode
    have names : Declaration.names (s.nodes.map .node ++ between) =
        s.nodes.map NodeDefinition.name ++ Declaration.names between := by
      rw [Declaration.names, List.filterMap_append, List.map_append, ofNodes]
      rfl
    rw [names]
    exact (s.joined d listed).imp (List.mem_append_left _) (List.mem_append_left _)

end Declarations

/-! ## Removing a node type -/

namespace Catalog

theorem Consistent.removeNode_eq {c : Catalog} (h : c.Consistent) (name : String) :
    (c.removeNode name).2 = { c with nodes := c.nodes.erase name }.withEvents
      (c.events.filter fun d => !d.touches name) := by
  rw [Catalog.removeNode]
  split
  · rename_i absent
    have sameNodes : c.nodes.erase name = c.nodes := by
      refine SortedMap.ext_get? fun other => ?_
      rw [SortedMap.get?_erase]
      split
      · rename_i same
        exact same ▸ absent.symm
      · rfl
    have sameEvents : c.events.filter (fun d => !d.touches name) = c.events := by
      refine SortedMap.ext_entries (List.filter_eq_self.mpr fun entry inside => ?_)
      have ends := h.ends inside
      rw [← h.filed inside] at ends
      have defined (node : String) (held : c.nodes.contains node = true) : node ≠ name := by
        rintro rfl
        rw [SortedMap.contains, show c.nodes.get? node = none from absent] at held
        cases held
      simp [EventDefinition.touches, EventKey.touches, defined _ ends.1, defined _ ends.2]
    rw [sameNodes, sameEvents, withEvents, ← h.incident]
  · rfl

end Catalog

namespace Declarations

variable {s : Declarations} {order : List Declaration}

theorem removeNode_catalog (s : Declarations) (name : String) :
    (s.catalog.removeNode name).2 = (s.without name).catalog := by
  obtain ⟨order, lists⟩ := s.exists_lists
  have consistent := (Catalog.reached_of_register lists.register_eq).consistent
  have nodes : s.catalog.nodes.erase name = (s.without name).catalog.nodes :=
    SortedMap.erase_filed s.distinctNodes name
  have events : s.catalog.events.filter (fun d => !d.touches name) =
      (s.without name).catalog.events :=
    SortedMap.filter_filed s.distinctEvents fun _ _ => rfl
  rw [consistent.removeNode_eq, nodes, events]
  rfl

/-- Whatever is declared can be registered in some order, and in every order in which event types
    come behind the node types that they join, each step succeeds and the catalog is the same.
    Removing a node type from it leaves the catalog in which neither the type nor an event type
    that touches it was ever registered. -/
theorem registered_in_any_order (s : Declarations) :
    (∃ order, s.Lists order) ∧ ∃ c : Catalog,
      (∀ order, s.Lists order → Catalog.register order = .ok c) ∧
      ∀ name order, (s.without name).Lists order →
        Catalog.register order = .ok (c.removeNode name).2 := by
  refine ⟨s.exists_lists, s.catalog, fun order lists => lists.register_eq, ?_⟩
  intro name order lists
  rw [s.removeNode_catalog]
  exact lists.register_eq

/-- Persons live in houses and know each other. -/
def residents : Declarations where
  nodes := [{ name := "House" }, { name := "Person" }]
  events := [{ key := ⟨"LIVES_IN", "Person", "House"⟩ }, { key := ⟨"KNOWS", "Person", "Person"⟩ }]
  distinctNodes := by decide
  distinctEvents := by decide
  joined := by decide

/-- Persons may be registered with their acquaintances before there are houses. -/
theorem residents_in_any_order :
    let house : Declaration := .node { name := "House" }
    let person : Declaration := .node { name := "Person" }
    let lives : Declaration := .event { key := ⟨"LIVES_IN", "Person", "House"⟩ }
    let knows : Declaration := .event { key := ⟨"KNOWS", "Person", "Person"⟩ }
    residents.Lists [house, person, lives, knows] ∧ residents.Lists [person, knows, house, lives] ∧
      (residents.without "Person").Lists [house] ∧
      ∃ c, Catalog.register [house, person, lives, knows] = .ok c ∧
        Catalog.register [person, knows, house, lives] = .ok c ∧
        Catalog.register [house] = .ok (c.removeNode "Person").2 := by
  intro house person lives knows
  have housesFirst : residents.Lists [house, person, lives, knows] := by decide
  have personsFirst : residents.Lists [person, knows, house, lives] := by decide
  have housesOnly : (residents.without "Person").Lists [house] := by decide
  obtain ⟨_, c, all, fewer⟩ := residents.registered_in_any_order
  exact ⟨housesFirst, personsFirst, housesOnly, c, all _ housesFirst, all _ personsFirst,
    fewer "Person" _ housesOnly⟩

end Declarations

end SchemaGraph
