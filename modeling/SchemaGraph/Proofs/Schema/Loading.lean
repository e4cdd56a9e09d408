import SchemaGraph.Proofs.Collections.Listing
import SchemaGraph.Proofs.Schema.Integrity

/-! # Loading and listing catalogs

A document is loaded unless one of its events has an end that it does not define, and the
first such event is reported. What a catalog lists is loaded as the same catalog.
-/

namespace SchemaGraph

/-! ## Rising lists -/

/-- Lists with the same members are the same when both are in strictly rising order. -/
theorem eq_of_rising {α κ : Type} [Ord κ] [Std.TransOrd κ] {key : α → κ} {l m : List α}
    (rising : l.Pairwise fun a b => compare (key a) (key b) = .lt)
    (risingToo : m.Pairwise fun a b => compare (key a) (key b) = .lt)
    (same : ∀ a, a ∈ l ↔ a ∈ m) : l = m := by
  have distinct {l : List α} (rising : l.Pairwise fun a b => compare (key a) (key b) = .lt) :
      l.Nodup := rising.imp fun below same => by simp [same, Std.compare_self] at below
  refine List.Perm.eq_of_pairwise (fun a b _ _ below above => ?_) rising risingToo
    ((List.perm_ext_iff_of_nodup (distinct rising) (distinct risingToo)).mpr same)
  exact absurd above (Std.OrientedCmp.not_lt_of_lt below)

/-- The first of rising items that passes a test is the least one. -/
theorem find?_eq_some_iff_least {α κ : Type} [Ord κ] [Std.TransOrd κ] {key : α → κ} {l : List α}
    (rising : l.Pairwise fun a b => compare (key a) (key b) = .lt) {test : α → Bool} {a : α} :
    l.find? test = some a ↔
      a ∈ l ∧ test a = true ∧ ∀ b ∈ l, test b = true → compare (key b) (key a) ≠ .lt := by
  have least {a : α} (found : l.find? test = some a) :
      ∀ b ∈ l, test b = true → b = a ∨ compare (key a) (key b) = .lt := by
    obtain ⟨_, before, after, rfl, failed⟩ := List.find?_eq_some_iff_append.mp found
    intro b inside passes
    rcases List.mem_append.mp inside with earlier | later
    · exact absurd passes (by simpa using failed b earlier)
    · exact (List.mem_cons.mp later).imp_right fun behind =>
        (List.pairwise_cons.mp (List.pairwise_append.mp rising).2.1).1 b behind
  constructor
  · intro found
    refine ⟨List.mem_of_find?_eq_some found, List.find?_some found, fun b inside passes below => ?_⟩
    rcases least found b inside passes with rfl | above
    · simp [Std.compare_self] at below
    · exact Std.OrientedCmp.not_lt_of_lt above below
  · rintro ⟨inside, passes, isLeast⟩
    obtain ⟨b, found⟩ := Option.isSome_iff_exists.mp (List.find?_isSome.mpr ⟨a, inside, passes⟩)
    rcases least found a inside passes with rfl | above
    · exact found
    · exact absurd above (isLeast b (List.mem_of_find?_eq_some found) (List.find?_some found))

/-! ## Normalized definitions -/

theorem sortedTexts_of_rising {texts : List String} (rising : texts.Pairwise (· ≤ ·)) :
    sortedTexts texts = texts :=
  List.mergeSort_of_pairwise (rising.imp fun below => by simpa using below)

theorem NodeDefinition.normalized_of_rising {d : NodeDefinition}
    (rising : d.uniqueIndex.Pairwise (· ≤ ·) ∧ d.namespaces.Pairwise (· ≤ ·)) :
    d.normalized = d := by
  rw [normalized, sortedTexts_of_rising rising.1, sortedTexts_of_rising rising.2]

theorem EventDefinition.normalized_of_rising {d : EventDefinition}
    (rising : d.uniqueIndex.Pairwise (· ≤ ·) ∧ d.namespaces.Pairwise (· ≤ ·)) :
    d.normalized = d := by
  rw [normalized, sortedTexts_of_rising rising.1, sortedTexts_of_rising rising.2]

/-! ## The events of a document -/

namespace EventKey

theorem compare_of_event {a b : EventKey} (below : compare a.event b.event = .lt) :
    compare a b = .lt := by
  change Ordering.then (compare a.event b.event) _ = .lt
  rw [below]
  rfl

theorem compare_of_left {a b : EventKey} (same : a.event = b.event)
    (below : compare a.left b.left = .lt) : compare a b = .lt := by
  change Ordering.then (compare a.event b.event) (Ordering.then (compare a.left b.left) _) = .lt
  rw [same, Std.compare_self, below]
  rfl

theorem compare_of_right {a b : EventKey} (same : a.event = b.event) (sameLeft : a.left = b.left)
    (below : compare a.right b.right = .lt) : compare a b = .lt := by
  change Ordering.then (compare a.event b.event)
    (Ordering.then (compare a.left b.left) (compare a.right b.right)) = .lt
  rw [same, sameLeft, Std.compare_self, Std.compare_self, below]
  rfl

end EventKey

namespace SchemaDocument

/-- The event definition under three keys. -/
def event? (s : SchemaDocument) (key : EventKey) : Option EventDefinition :=
  ((s.events.get? key.event).bind fun byLeft => byLeft.get? key.left).bind fun byRight =>
    byRight.get? key.right

/-- The document has an event type under the key with an end that it does not define. -/
def Dangles (s : SchemaDocument) (key : EventKey) : Prop :=
  (s.event? key).isSome = true ∧
    ¬ (s.nodes.contains key.left = true ∧ s.nodes.contains key.right = true)

theorem event?_eq_some_iff {s : SchemaDocument} {key : EventKey} {d : EventDefinition} :
    s.event? key = some d ↔ ∃ byLeft byRight, (key.event, byLeft) ∈ s.events.entries ∧
      (key.left, byRight) ∈ byLeft.entries ∧ (key.right, d) ∈ byRight.entries := by
  simp only [event?, Option.bind_eq_some_iff, SortedMap.get?_eq_some_iff]
  constructor
  · rintro ⟨byRight, ⟨byLeft, first, second⟩, third⟩
    exact ⟨byLeft, byRight, first, second, third⟩
  · rintro ⟨byLeft, byRight, first, second, third⟩
    exact ⟨byRight, ⟨byLeft, first, second⟩, third⟩

/-- Listed is what can be looked up, under the name that it is looked up by. -/
theorem mem_eventDefinitions_iff {s : SchemaDocument} {d : EventDefinition} :
    d ∈ s.eventDefinitions ↔ ∃ e, s.event? d.key = some e ∧ { e with key := d.key } = d := by
  simp only [eventDefinitions, List.mem_flatMap, List.mem_map, event?_eq_some_iff, Prod.exists]
  constructor
  · rintro ⟨event, byLeft, first, left, byRight, second, right, e, third, rfl⟩
    exact ⟨e, ⟨byLeft, byRight, first, second, third⟩, rfl⟩
  · rintro ⟨e, ⟨byLeft, byRight, first, second, third⟩, same⟩
    exact ⟨_, byLeft, first, _, byRight, second, _, e, third, same⟩

theorem eventDefinitions_rising (s : SchemaDocument) :
    s.eventDefinitions.Pairwise fun d e => compare d.key e.key = .lt := by
  have rising {ν : Type} (m : SortedMap String ν) :
      m.entries.Pairwise fun a b => compare a.1 b.1 = .lt := List.pairwise_map.mp m.sorted
  refine List.pairwise_flatMap.mpr ⟨fun byEvent _ => ?_, (rising s.events).imp ?_⟩
  · refine List.pairwise_flatMap.mpr ⟨fun byEnd _ => ?_, (rising byEvent.2).imp ?_⟩
    · refine List.pairwise_map.mpr ((rising byEnd.2).imp fun below => ?_)
      exact EventKey.compare_of_right rfl rfl below
    · intro _ _ below d inD e inE
      obtain ⟨_, _, rfl⟩ := List.mem_map.mp inD
      obtain ⟨_, _, rfl⟩ := List.mem_map.mp inE
      exact EventKey.compare_of_left rfl below
  · intro _ _ below d inD e inE
    obtain ⟨_, _, inside⟩ := List.mem_flatMap.mp inD
    obtain ⟨_, _, rfl⟩ := List.mem_map.mp inside
    obtain ⟨_, _, insideToo⟩ := List.mem_flatMap.mp inE
    obtain ⟨_, _, rfl⟩ := List.mem_map.mp insideToo
    exact EventKey.compare_of_event below

theorem get?_getD_empty {κ ν : Type} [Ord κ] [DecidableEq κ] (m : Option (SortedMap κ ν))
    (key : κ) : (m.getD .empty).get? key = m.bind fun held => held.get? key := by
  cases m <;> rfl

theorem event?_addEvent (s : SchemaDocument) (d : EventDefinition) (key : EventKey) :
    (s.addEvent d).event? key = if key = d.key then some d else s.event? key := by
  obtain ⟨event, left, right⟩ := key
  have parts : (⟨event, left, right⟩ : EventKey) = d.key ↔
      event = d.key.event ∧ left = d.key.left ∧ right = d.key.right :=
    EventKey.mk.injEq .. ▸ Iff.rfl
  simp only [event?, addEvent, SortedMap.get?_insert, parts]
  by_cases sameEvent : event = d.key.event
  · by_cases sameLeft : left = d.key.left
    · by_cases sameRight : right = d.key.right
      · simp [sameEvent, sameLeft, sameRight]
      · simp [sameEvent, sameLeft, sameRight, get?_getD_empty]
    · simp [sameEvent, sameLeft, get?_getD_empty]
  · simp [sameEvent]

end SchemaDocument

namespace Catalog

variable {c : Catalog}

/-! ## What a catalog lists -/

theorem nodes_toDocument (c : Catalog) : c.toDocument.nodes = c.nodes := by
  have kept (definitions : List EventDefinition) (s : SchemaDocument) :
      (definitions.foldl SchemaDocument.addEvent s).nodes = s.nodes := by
    induction definitions generalizing s with
    | nil => rfl
    | cons d rest ih => exact ih _
  exact kept c.events.values _

theorem Consistent.event?_toDocument (h : c.Consistent) (key : EventKey) :
    c.toDocument.event? key = c.event? key := by
  have distinct : (c.events.values.map EventDefinition.key).Nodup := by
    rw [h.keys_of_values]
    exact c.events.keys_distinct
  have nothing : SchemaDocument.event? { nodes := c.nodes } key = none := rfl
  refine Option.ext fun d => ?_
  rw [Catalog.toDocument, look_foldl_iff id SchemaDocument.event?_addEvent distinct,
    nothing]
  constructor
  · rintro (⟨e, inside, rfl, rfl⟩ | ⟨_, absent⟩)
    · exact h.mem_values_iff.mp inside
    · cases absent
  · intro held
    have own : d.key = key := h.filed ((SortedMap.get?_eq_some_iff _ _ _).mp held)
    exact Or.inl ⟨d, h.mem_values_iff.mpr (own ▸ held), own, rfl⟩

/-- A catalog lists its event types in their order. -/
theorem Consistent.eventDefinitions_toDocument (h : c.Consistent) :
    c.toDocument.eventDefinitions = c.events.values := by
  refine eq_of_rising (SchemaDocument.eventDefinitions_rising _) h.values_rising fun d => ?_
  rw [SchemaDocument.mem_eventDefinitions_iff, h.mem_values_iff, h.event?_toDocument]
  constructor
  · rintro ⟨e, held, same⟩
    have own : e.key = d.key := h.filed ((SortedMap.get?_eq_some_iff _ _ _).mp held)
    rw [← own] at same
    exact same ▸ held
  · intro held
    exact ⟨d, held, rfl⟩

theorem Consistent.nodeDefinitions_toDocument (h : c.Consistent) :
    c.toDocument.nodeDefinitions = c.nodes.values := by
  rw [SchemaDocument.nodeDefinitions, nodes_toDocument, SortedMap.values]
  refine List.map_congr_left fun entry inside => ?_
  obtain ⟨name, d⟩ := entry
  rw [← h.named inside]

/-! ## Loading definitions one after the other -/

/-- Both ends of the event type are defined. -/
def Joins (nodes : SortedMap String NodeDefinition) (key : EventKey) : Prop :=
  nodes.contains key.left = true ∧ nodes.contains key.right = true

instance (nodes : SortedMap String NodeDefinition) : DecidablePred (Joins nodes) :=
  fun _ => inferInstanceAs (Decidable (_ ∧ _))

/-- The fault of an event type with an end that is not defined; the left one is named first. -/
def danglingFault (nodes : SortedMap String NodeDefinition) (key : EventKey) : CatalogError :=
  .undefinedEnd key.event (if nodes.contains key.left then key.right else key.left)

theorem putNode_of_absent {d : NodeDefinition} (absent : c.nodes.contains d.name = false) :
    c.putNode d false = .ok { c with nodes := c.nodes.insert d.name d.normalized } := by
  rw [Catalog.putNode]
  simp [absent]

theorem putEvent_of_absent {d : EventDefinition} (absent : c.events.contains d.key = false) :
    c.putEvent d false = if Joins c.nodes d.key then
        .ok (c.withEvents (c.events.insert d.key d.normalized))
      else .error (danglingFault c.nodes d.key) := by
  rw [Catalog.putEvent, danglingFault]
  cases left : c.nodes.contains d.key.left with
  | false => simp [Joins, left]
  | true =>
      cases right : c.nodes.contains d.key.right with
      | false => simp [Joins, left, right]
      | true => simp [Joins, left, right, absent]

theorem foldlM_putNode {definitions : List NodeDefinition}
    (distinct : (definitions.map NodeDefinition.name).Nodup)
    (absent : ∀ d ∈ definitions, c.nodes.contains d.name = false) :
    definitions.foldlM (fun c d => c.putNode d false) c = .ok { c with
      nodes := definitions.foldl (fun nodes d => nodes.insert d.name d.normalized) c.nodes } := by
  induction definitions generalizing c with
  | nil => rfl
  | cons d rest ih =>
      obtain ⟨fresh, distinct⟩ := List.nodup_cons.mp distinct
      rw [List.foldlM_cons, putNode_of_absent (absent d List.mem_cons_self)]
      refine ih distinct fun e inside => ?_
      have different : e.name ≠ d.name := fun same =>
        fresh (List.mem_map.mpr ⟨e, inside, same⟩)
      have before := absent e (List.mem_cons_of_mem d inside)
      rw [← Bool.not_eq_true, SortedMap.contains_insert]
      simp [different, before]

theorem foldlM_putEvent {definitions : List EventDefinition}
    (distinct : (definitions.map EventDefinition.key).Nodup)
    (absent : ∀ d ∈ definitions, c.events.contains d.key = false)
    (indexed : c.incident = .ofDefinitions c.events.values) :
    definitions.foldlM (fun c d => c.putEvent d false) c =
      match definitions.find? fun d => ¬ Joins c.nodes d.key with
      | some d => .error (danglingFault c.nodes d.key)
      | none => .ok (c.withEvents
          (definitions.foldl (fun events d => events.insert d.key d.normalized) c.events)) := by
  induction definitions generalizing c with
  | nil =>
      have same : c.withEvents c.events = c := by rw [withEvents, ← indexed]
      exact congrArg Except.ok same.symm
  | cons d rest ih =>
      obtain ⟨fresh, distinct⟩ := List.nodup_cons.mp distinct
      rw [List.foldlM_cons, putEvent_of_absent (absent d List.mem_cons_self), List.find?_cons]
      by_cases joins : Joins c.nodes d.key
      · simp only [joins, if_true, not_true_eq_false, decide_false]
        refine ih distinct (fun e inside => ?_) rfl
        have different : e.key ≠ d.key := fun same =>
          fresh (List.mem_map.mpr ⟨e, inside, same⟩)
        have before := absent e (List.mem_cons_of_mem d inside)
        rw [← Bool.not_eq_true]
        change ¬ (c.events.insert d.key d.normalized).contains e.key = true
        rw [SortedMap.contains_insert]
        simp [different, before]
      · simp only [joins, if_false, not_false_eq_true, decide_true]
        rfl

/-- The node definitions that are loaded from a document. -/
def loadedNodes (s : SchemaDocument) : SortedMap String NodeDefinition :=
  s.nodeDefinitions.foldl (fun nodes d => nodes.insert d.name d.normalized) .empty

/-- The event definitions that are loaded from a document, when all their ends are defined. -/
def loadedEvents (s : SchemaDocument) : SortedMap EventKey EventDefinition :=
  s.eventDefinitions.foldl (fun events d => events.insert d.key d.normalized) .empty

theorem names_nodeDefinitions (s : SchemaDocument) :
    s.nodeDefinitions.map NodeDefinition.name = s.nodes.keys := by
  rw [SchemaDocument.nodeDefinitions, List.map_map]
  rfl

theorem distinct_names (s : SchemaDocument) :
    (s.nodeDefinitions.map NodeDefinition.name).Nodup := by
  rw [names_nodeDefinitions]
  exact s.nodes.keys_distinct

theorem distinct_keys (s : SchemaDocument) :
    (s.eventDefinitions.map EventDefinition.key).Nodup :=
  List.pairwise_map.mpr (s.eventDefinitions_rising.imp fun below same => by
    simp [same, Std.compare_self] at below)

theorem get?_loadedNodes {s : SchemaDocument} {name : String} {d : NodeDefinition} :
    (loadedNodes s).get? name = some d ↔
      ∃ e ∈ s.nodeDefinitions, e.name = name ∧ e.normalized = d :=
  SortedMap.get?_filed (distinct_names s) name d

theorem get?_loadedEvents {s : SchemaDocument} {key : EventKey} {d : EventDefinition} :
    (loadedEvents s).get? key = some d ↔
      ∃ e ∈ s.eventDefinitions, e.key = key ∧ e.normalized = d :=
  SortedMap.get?_filed (distinct_keys s) key d

theorem contains_loadedNodes (s : SchemaDocument) (name : String) :
    (loadedNodes s).contains name = s.nodes.contains name := by
  rw [Bool.eq_iff_iff, ← SortedMap.mem_keys_iff s.nodes, ← names_nodeDefinitions]
  exact SortedMap.contains_filed (distinct_names s) name

/-- A document fails at its first event with an end that is not defined, and else all its
    definitions are loaded. -/
theorem ofDocument_eq (s : SchemaDocument) : ofDocument s =
    match s.eventDefinitions.find? fun d => ¬ Joins s.nodes d.key with
    | some d => .error (danglingFault s.nodes d.key)
    | none => .ok ⟨loadedNodes s, loadedEvents s, .ofDefinitions (loadedEvents s).values⟩ := by
  have nodes := foldlM_putNode (c := .empty) (distinct_names s) fun _ _ => rfl
  have events := foldlM_putEvent (c := ⟨loadedNodes s, .empty, .empty⟩) (distinct_keys s)
    (fun _ _ => rfl) rfl
  simp only [Joins, danglingFault, contains_loadedNodes] at events ⊢
  rw [ofDocument, nodes]
  exact events

theorem dangles_iff {s : SchemaDocument} {key : EventKey} : s.Dangles key ↔
    ∃ d ∈ s.eventDefinitions, d.key = key ∧ ¬ Joins s.nodes d.key := by
  rw [SchemaDocument.Dangles, Option.isSome_iff_exists]
  constructor
  · rintro ⟨⟨d, held⟩, dangles⟩
    exact ⟨{ d with key }, SchemaDocument.mem_eventDefinitions_iff.mpr ⟨d, held, rfl⟩, rfl, dangles⟩
  · rintro ⟨d, inside, rfl, dangles⟩
    obtain ⟨e, held, _⟩ := SchemaDocument.mem_eventDefinitions_iff.mp inside
    exact ⟨⟨e, held⟩, dangles⟩

/-- A load fails with the fault of the first event type that dangles, and with no other. -/
theorem ofDocument_eq_error_iff {s : SchemaDocument} {e : CatalogError} :
    ofDocument s = .error e ↔ ∃ key, s.Dangles key ∧
      (∀ other, s.Dangles other → compare other key ≠ .lt) ∧ e = danglingFault s.nodes key := by
  have failed : ofDocument s = .error e ↔
      ∃ d, s.eventDefinitions.find? (fun d => ¬ Joins s.nodes d.key) = some d ∧
        e = danglingFault s.nodes d.key := by
    rw [ofDocument_eq]
    cases s.eventDefinitions.find? fun d => ¬ Joins s.nodes d.key with
    | none => simp
    | some d => simp [eq_comm]
  simp only [failed, find?_eq_some_iff_least s.eventDefinitions_rising, decide_eq_true_eq,
    dangles_iff]
  constructor
  · rintro ⟨d, ⟨inside, dangles, least⟩, rfl⟩
    refine ⟨d.key, ⟨d, inside, rfl, dangles⟩, ?_, rfl⟩
    rintro other ⟨b, insideToo, rfl, danglesToo⟩
    exact least b insideToo danglesToo
  · rintro ⟨key, ⟨d, inside, rfl, dangles⟩, least, rfl⟩
    exact ⟨d, ⟨inside, dangles, fun b insideToo danglesToo =>
      least b.key ⟨b, insideToo, rfl, danglesToo⟩⟩, rfl⟩

theorem exists_ofDocument_error_iff {s : SchemaDocument} :
    (∃ e, ofDocument s = .error e) ↔ ∃ key, s.Dangles key := by
  constructor
  · rintro ⟨e, failed⟩
    obtain ⟨key, dangles, _⟩ := ofDocument_eq_error_iff.mp failed
    exact ⟨key, dangles⟩
  · rintro ⟨key, dangles⟩
    obtain ⟨d, inside, rfl, fails⟩ := dangles_iff.mp dangles
    have someFault : (s.eventDefinitions.find? fun d => ¬ Joins s.nodes d.key).isSome = true :=
      List.find?_isSome.mpr ⟨d, inside, decide_eq_true fails⟩
    obtain ⟨first, found⟩ := Option.isSome_iff_exists.mp someFault
    exact ⟨_, by rw [ofDocument_eq, found]⟩

/-! ## What a catalog lists is loaded again -/

theorem Reached.loadedNodes_toDocument (h : c.Reached) : loadedNodes c.toDocument = c.nodes := by
  refine SortedMap.ext_get? fun name => Option.ext fun d => ?_
  rw [get?_loadedNodes, h.consistent.nodeDefinitions_toDocument, SortedMap.get?_eq_some_iff,
    SortedMap.values]
  simp only [List.mem_map, Prod.exists]
  constructor
  · rintro ⟨_, ⟨filed, e, inside, rfl⟩, rfl, rfl⟩
    rwa [NodeDefinition.normalized_of_rising (h.sorted.nodes inside), h.consistent.named inside]
  · intro inside
    exact ⟨d, ⟨name, d, inside, rfl⟩, h.consistent.named inside,
      NodeDefinition.normalized_of_rising (h.sorted.nodes inside)⟩

theorem Reached.loadedEvents_toDocument (h : c.Reached) : loadedEvents c.toDocument = c.events := by
  refine SortedMap.ext_get? fun key => Option.ext fun d => ?_
  rw [get?_loadedEvents, h.consistent.eventDefinitions_toDocument, SortedMap.get?_eq_some_iff,
    SortedMap.values]
  simp only [List.mem_map, Prod.exists]
  constructor
  · rintro ⟨_, ⟨filed, e, inside, rfl⟩, rfl, rfl⟩
    rwa [EventDefinition.normalized_of_rising (h.sorted.events inside), h.consistent.filed inside]
  · intro inside
    exact ⟨d, ⟨key, d, inside, rfl⟩, h.consistent.filed inside,
      EventDefinition.normalized_of_rising (h.sorted.events inside)⟩

theorem Reached.ofDocument_toDocument (h : c.Reached) : ofDocument c.toDocument = .ok c := by
  have joined : c.toDocument.eventDefinitions.find?
      (fun d => ¬ Joins c.toDocument.nodes d.key) = none := by
    rw [h.consistent.eventDefinitions_toDocument, nodes_toDocument, List.find?_eq_none]
    intro d inside
    obtain ⟨⟨key, e⟩, held, rfl⟩ := List.mem_map.mp inside
    have ends := h.consistent.ends held
    rw [← h.consistent.filed held] at ends
    simpa [Joins] using ends
  rw [ofDocument_eq, joined, h.loadedNodes_toDocument, h.loadedEvents_toDocument]
  exact congrArg Except.ok (by rw [← h.consistent.incident])

/-- A catalog is loaded from what it lists. A document is loaded exactly when its events have
    defined ends; otherwise the first event that has not is reported, by the end on the left
    when both are missing. -/
theorem documents_loaded :
    (∀ actions : List Action, ofDocument (runAll actions .empty).toDocument =
      .ok (runAll actions .empty)) ∧
    ∀ s : SchemaDocument, ((∃ e, ofDocument s = .error e) ↔ ∃ key, s.Dangles key) ∧
      ∀ e, ofDocument s = .error e ↔ ∃ key, s.Dangles key ∧
        (∀ other, s.Dangles other → compare other key ≠ .lt) ∧
        e = .undefinedEnd key.event
          (if s.nodes.contains key.left then key.right else key.left) :=
  ⟨fun actions => (Reached.empty.runAll actions).ofDocument_toDocument,
    fun _ => ⟨exists_ofDocument_error_iff, fun _ => ofDocument_eq_error_iff⟩⟩

end Catalog

end SchemaGraph
