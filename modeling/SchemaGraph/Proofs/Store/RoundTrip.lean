import SchemaGraph.Proofs.Store.Reached

/-! # Loading what was saved

A document lists the events of a store type by type, so loading it brings them in another order
than the one in which they came. No entry is in the way of another one, so when the fingerprints
and memberships are those that the catalog gives by now, loading takes in every entry as it is,
and the indices come out as they were.
-/

namespace SchemaGraph

namespace Shelf

variable {ε : Type} [Entity ε] {c : Catalog} {s : Shelf ε}

/-- Entities that can come onto a shelf one after the other, each under its own key and just as
    it is. -/
structure Welcomes (c : Catalog) (s : Shelf ε) (entries : List (String × ε)) : Prop where
  own {entry : String × ε} : entry ∈ entries → Entity.logicKey? entry.2 = some entry.1
  current {entry : String × ε} : entry ∈ entries → Entity.stamped c entry.2 = .ok entry.2
  absent {entry : String × ε} : entry ∈ entries → s.contains entry.1 = false
  unheld {entry : String × ε} {fingerprint : String} : entry ∈ entries →
    Entity.fingerprint entry.2 = some fingerprint → s.holders.get? fingerprint = none
  distinct : (entries.map Prod.fst).Nodup
  apart : entries.Pairwise fun one other => ∀ fingerprint,
    Entity.fingerprint one.2 = some fingerprint → Entity.fingerprint other.2 ≠ some fingerprint

theorem Welcomes.verdict {entry : String × ε} {rest : List (String × ε)}
    (h : s.Welcomes c (entry :: rest)) : s.verdict c entry.2 false = .ok (some entry) := by
  have first : entry ∈ entry :: rest := List.mem_cons_self
  refine verdict_eq_some_iff.mpr ⟨h.own first, fun _ => h.absent first, ?_⟩
  refine admitted_eq_ok_iff.mpr ⟨h.current first, fun fingerprint holder carries heldBy => ?_⟩
  rw [h.unheld first carries] at heldBy
  cases heldBy

/-- The first entity gets in the way of none of the others. -/
theorem Welcomes.rest {entry : String × ε} {rest : List (String × ε)}
    (h : s.Welcomes c (entry :: rest)) :
    ((s.remove entry.1).2.put entry.1 entry.2).Welcomes c rest := by
  obtain ⟨fresh, distinct⟩ := List.nodup_cons.mp (List.map_cons ▸ h.distinct)
  obtain ⟨apartRest, apart⟩ := List.pairwise_cons.mp h.apart
  have unchanged := remove_of_absent (h.absent List.mem_cons_self)
  rw [unchanged]
  refine ⟨fun later => h.own (List.mem_cons_of_mem _ later),
    fun later => h.current (List.mem_cons_of_mem _ later), fun {other} later => ?_,
    fun {other fingerprint} later carries => ?_, distinct, apart⟩
  · have different : other.1 ≠ entry.1 := fun same =>
      fresh (same ▸ List.mem_map_of_mem later)
    change (s.entries.insert entry.1 entry.2).contains other.1 = false
    rw [OrderedMap.contains, OrderedMap.get?_insert, if_neg different]
    exact h.absent (List.mem_cons_of_mem _ later)
  · have notYet := h.unheld (List.mem_cons_of_mem _ later) carries
    simp only [Shelf.put, hold]
    split
    · rename_i own ofFirst
      have different : fingerprint ≠ own := by
        rintro rfl
        exact apartRest other later fingerprint ofFirst carries
      rw [SortedMap.get?_insert, if_neg different, notYet]
    · exact notYet

/-- What stands on a consistent shelf can come onto an empty one, in any order. -/
theorem Consistent.welcomes_empty (h : s.Consistent) {entries : List (String × ε)}
    (perm : entries.Perm s.entries.entries)
    (current : ∀ e ∈ s.values, Entity.stamped c e = .ok e) :
    ({} : Shelf ε).Welcomes c entries := by
  have held {entry : String × ε} (inside : entry ∈ entries) : s.get? entry.1 = some entry.2 :=
    (s.mem_entries_iff _ _).mp (perm.mem_iff.mp inside)
  have distinct : (entries.map Prod.fst).Nodup :=
    (perm.map Prod.fst).nodup_iff.mpr s.entries.distinct
  refine ⟨fun inside => h.keyed (held inside),
    fun inside => current _ (List.mem_map_of_mem (perm.mem_iff.mp inside)), fun _ => rfl,
    fun _ _ => rfl, distinct, ?_⟩
  refine (List.pairwise_map.mp distinct).imp_of_mem ?_
  intro one other inside insideToo different fingerprint ofOne ofOther
  exact different (h.fingerprint_unique (held inside) (held insideToo) ofOne ofOther)

end Shelf

namespace Store

variable {c : Catalog} {s t : Store}

/-! ## Adding welcome entities -/

theorem addNodes_eq_ok {entries : List (String × Node)} (h : s.nodes.Welcomes c entries) :
    ∃ nodes, s.addNodes c (entries.map Prod.snd) = (.ok (), { s with nodes }) ∧
      nodes.entries.entries = s.nodes.entries.entries ++ entries := by
  induction entries generalizing s with
  | nil => exact ⟨s.nodes, rfl, (List.append_nil _).symm⟩
  | cons entry rest ih =>
      obtain ⟨nodes, added, listed⟩ := ih (s := s.withNode entry.1 entry.2) h.rest
      refine ⟨nodes, ?_, ?_⟩
      · rw [List.map_cons, addNodes, addNode_eq, h.verdict]
        exact added
      · have absent := h.absent List.mem_cons_self
        rw [listed, withNode, Shelf.remove_of_absent absent]
        refine (congrArg (· ++ rest) (OrderedMap.entries_insert_of_absent entry.2 absent)).trans ?_
        rw [List.append_assoc, List.singleton_append]

/-- The store after events have come one after the other. -/
def withEvents (s : Store) (entries : List (String × Event)) : Store :=
  entries.foldl (fun s entry => s.withEvent entry.1 entry.2) s

theorem welcomes_withEvent {entry : String × Event} {rest : List (String × Event)}
    (h : s.events.Welcomes c (entry :: rest)) :
    (s.withEvent entry.1 entry.2).events.Welcomes c rest := by
  simp only [withEvent, events_removeEventAt]
  exact h.rest

theorem addEvents_eq_ok {entries : List (String × Event)} (h : s.events.Welcomes c entries)
    (member : ∀ entry ∈ entries, entry.2.withMembership c = entry.2) :
    s.addEvents c (entries.map Prod.snd) = (.ok (), s.withEvents entries) := by
  induction entries generalizing s with
  | nil => rfl
  | cons entry rest ih =>
      rw [List.map_cons, addEvents, addEvent_eq, h.verdict]
      simp only [member entry List.mem_cons_self]
      exact ih (welcomes_withEvent h) fun other later => member other (List.mem_cons_of_mem _ later)

theorem entries_withEvents {entries : List (String × Event)} (h : s.events.Welcomes c entries) :
    (s.withEvents entries).events.entries.entries = s.events.entries.entries ++ entries := by
  induction entries generalizing s with
  | nil => exact (List.append_nil _).symm
  | cons entry rest ih =>
      have fresh := (s.events.entries.contains_eq_false_iff _).mp (h.absent List.mem_cons_self)
      have here := entries_withEvent s entry.1 entry.2
      rw [Entries.without_of_absent fresh] at here
      refine (ih (welcomes_withEvent h)).trans ?_
      rw [here, List.append_assoc, List.singleton_append]

theorem nodes_withEvents (entries : List (String × Event)) (s : Store) :
    (s.withEvents entries).nodes = s.nodes := by
  induction entries generalizing s with
  | nil => rfl
  | cons entry rest ih => exact (ih _).trans (nodes_removeEventAt s entry.1)

/-- The types of the groups after one more event. -/
def typesWith (types : List String) (entry : String × Event) : List String :=
  match entry.2.core.typeName with
  | some typeName => if typeName ∈ types then types else types ++ [typeName]
  | none => types

theorem keys_groups_withEvents {entries : List (String × Event)}
    (h : s.events.Welcomes c entries) :
    (s.withEvents entries).groups.keys = entries.foldl typesWith s.groups.keys := by
  induction entries generalizing s with
  | nil => rfl
  | cons entry rest ih =>
      have absent := (s.events.entries.get?_eq_none_iff _).mpr (h.absent List.mem_cons_self)
      have here : (s.withEvent entry.1 entry.2).groups.keys = typesWith s.groups.keys entry := by
        simp only [withEvent, removeEventAt_of_absent absent, Store.index, typesWith]
        cases entry.2.core.typeName with
        | none => rfl
        | some typeName => exact OrderedMap.keys_insert ..
      rw [List.foldl_cons, ← here]
      exact ih (welcomes_withEvent h)

theorem foldl_typesWith_known {types : List String} {typeName : String}
    (known : typeName ∈ types) {entries : List (String × Event)}
    (typed : ∀ entry ∈ entries, entry.2.core.typeName = some typeName) :
    entries.foldl typesWith types = types := by
  induction entries with
  | nil => rfl
  | cons entry rest ih =>
      have here : typesWith types entry = types := by
        simp only [typesWith, typed entry List.mem_cons_self, if_pos known]
      rw [List.foldl_cons, here]
      exact ih fun other later => typed other (List.mem_cons_of_mem _ later)

/-- Events that come type by type bring the types in that order. -/
theorem foldl_typesWith_flatMap (types : List String) {new : List String}
    {eventsOf : String → List (String × Event)} (distinct : (types ++ new).Nodup)
    (typed : ∀ typeName ∈ new, ∀ entry ∈ eventsOf typeName, entry.2.core.typeName = some typeName)
    (nonempty : ∀ typeName ∈ new, eventsOf typeName ≠ []) :
    (new.flatMap eventsOf).foldl typesWith types = types ++ new := by
  induction new generalizing types with
  | nil => exact (List.append_nil types).symm
  | cons typeName rest ih =>
      obtain ⟨first, _, block⟩ := List.exists_cons_of_ne_nil (nonempty typeName List.mem_cons_self)
      have ofType := typed typeName List.mem_cons_self
      rw [block] at ofType
      have fresh : typeName ∉ types := by
        intro known
        exact (List.nodup_append.mp distinct).2.2 _ known _ List.mem_cons_self rfl
      have here : typesWith types first = types ++ [typeName] := by
        simp only [typesWith, ofType first List.mem_cons_self, if_neg fresh]
      have known : typeName ∈ types ++ [typeName] := by simp
      rw [List.flatMap_cons, List.foldl_append, block, List.foldl_cons, here,
        foldl_typesWith_known known fun entry later =>
          ofType entry (List.mem_cons_of_mem _ later)]
      have shift : types ++ typeName :: rest = types ++ [typeName] ++ rest := List.append_cons ..
      rw [shift] at distinct ⊢
      exact ih _ distinct (fun other later => typed other (List.mem_cons_of_mem _ later))
        fun other later => nonempty other (List.mem_cons_of_mem _ later)

theorem Grouped.types_listing (h : s.Grouped) :
    s.listing.foldl typesWith [] = s.groups.keys := by
  refine foldl_typesWith_flatMap [] s.groups.distinct ?_ ?_
  · intro typeName _ entry inside
    exact of_decide_eq_true (List.mem_filter.mp inside).2
  · intro typeName held empty
    refine (h.groups.held typeName).mp ((s.groups.mem_keys_iff typeName).mp held) ?_
    rw [keysOfType, empty, List.map_nil]

/-! ## The same events in another order -/

theorem Consistent.perm_incidentEvents (h : s.Consistent) (h' : t.Consistent)
    (perm : t.events.entries.entries.Perm s.events.entries.entries) (node : String) :
    (t.incidentEvents node).Perm (s.incidentEvents node) := by
  have sameKeys :
      (t.adjacency.eventsAt node).members.Perm (s.adjacency.eventsAt node).members := by
    refine (List.perm_ext_iff_of_nodup (OrderedSet.distinct _) (OrderedSet.distinct _)).mpr
      fun key => ?_
    refine (h'.adjacency node key).trans (Iff.trans ?_ (h.adjacency node key).symm)
    simp only [perm.mem_iff]
  rw [incidentEvents, incidentEvents, funext (Shelf.get?_of_perm perm)]
  exact sameKeys.filterMap _

/-! ## Saving and loading -/

/-- The fingerprints and memberships in a store are those that the catalog gives. -/
structure Current (c : Catalog) (s : Store) : Prop where
  nodes : ∀ n ∈ s.nodes.values, Entity.computeFingerprint c n = .ok (Entity.fingerprint n)
  events : ∀ e ∈ s.events.values, Entity.computeFingerprint c e = .ok (Entity.fingerprint e)
  membership : ∀ e ∈ s.events.values,
    e.membership = some ((e.definition? c).any EventDefinition.isMember)

/-- What a store has in common with the one that its document loads: everything but the
    children of nodes, and the order of the events of different types. -/
structure Reloaded (s t : Store) : Prop where
  consistent : t.Consistent
  nodes : t.nodes.entries = s.nodes.entries.mapValues Node.duplicate
  nodeHolders : t.nodes.holders = s.nodes.holders
  events : t.events.entries.entries.Perm s.events.entries.entries
  eventHolders : t.events.holders = s.events.holders
  groups : t.groups = s.groups
  grouped : t.groupedEvents = s.groupedEvents
  incident (node : String) : (t.incidentEvents node).Perm (s.incidentEvents node)
  document : t.toDocument = s.toDocument

theorem Current.stamped_node (current : s.Current c) {n : Node} (held : n ∈ s.nodes.values) :
    Entity.stamped c n.duplicate = .ok n.duplicate :=
  Entity.stamped_eq_ok_iff.mpr ⟨Entity.fingerprint n, current.nodes n held, rfl⟩

theorem Current.stamped_event (current : s.Current c) {e : Event} (held : e ∈ s.events.values) :
    Entity.stamped c e = .ok e :=
  Entity.stamped_eq_ok_iff.mpr ⟨Entity.fingerprint e, current.events e held, rfl⟩

theorem Current.withMembership_eq (current : s.Current c) {e : Event}
    (held : e ∈ s.events.values) : e.withMembership c = e := by
  rw [Event.withMembership, ← current.membership e held]

theorem values_copy (s : Store) : s.copy.nodes.values = s.nodes.values.map Node.duplicate := by
  change (s.nodes.entries.entries.map _).map Prod.snd = (s.nodes.entries.entries.map Prod.snd).map _
  rw [List.map_map, List.map_map]
  rfl

/-- Nothing gets in the way when a document is loaded with the catalog of its store. -/
theorem ofDocument_toDocument_eq (h : s.Consistent) (current : s.Current c) :
    ∃ nodes : Shelf Node, nodes.entries = s.copy.nodes.entries ∧
      ofDocument c s.toDocument = .ok (withEvents { nodes } s.listing) := by
  have copied : s.copy.nodes.Consistent := h.nodes.mapValues (fun _ => rfl) fun _ => rfl
  have nodesWelcome : ({} : Shelf Node).Welcomes c s.copy.nodes.entries.entries := by
    refine copied.welcomes_empty (List.Perm.refl _) fun n held => ?_
    rw [values_copy] at held
    obtain ⟨original, isStored, rfl⟩ := List.mem_map.mp held
    exact current.stamped_node isStored
  have eventsWelcome : ({} : Shelf Event).Welcomes c s.listing :=
    h.events.welcomes_empty h.grouped.perm_listing fun e held => current.stamped_event held
  obtain ⟨nodes, nodesAdded, listed⟩ := addNodes_eq_ok (s := .empty) nodesWelcome
  have eventsAdded := addEvents_eq_ok (s := { nodes }) eventsWelcome fun entry inside =>
    current.withMembership_eq (List.mem_map_of_mem (h.grouped.perm_listing.mem_iff.mp inside))
  refine ⟨nodes, OrderedMap.ext_entries listed, ?_⟩
  have allNodes : Store.empty.setNodes c s.toDocument.nodes = (.ok (), { nodes }) := by
    refine Eq.trans ?_ nodesAdded
    rw [toDocument, ← values_copy]
    rfl
  have allEvents : setEvents c { nodes } s.toDocument.events.values.flatten =
      (.ok (), withEvents { nodes } s.listing) := by
    rw [← eventsAdded, ← h.grouped.values_groupedEvents]
    rfl
  rw [ofDocument, allNodes]
  simp only [allEvents]

/-- Loading what was saved with the same catalog succeeds, takes in every entry, and gives a
    store that has all indices of the one that was saved. -/
theorem reload (h : s.Consistent) (current : s.Current c) :
    ∃ t, ofDocument c s.toDocument = .ok t ∧ Reloaded s t := by
  obtain ⟨nodes, sameNodes, loaded⟩ := ofDocument_toDocument_eq h current
  have eventsWelcome : ({} : Shelf Event).Welcomes c s.listing :=
    h.events.welcomes_empty h.grouped.perm_listing fun e held => current.stamped_event held
  have consistent := (Consistent.kept c).ofDocument loaded
  have ofNodes : (withEvents { nodes } s.listing).nodes.entries =
      s.nodes.entries.mapValues Node.duplicate := by
    rw [nodes_withEvents, sameNodes]
    rfl
  have ofEvents : (withEvents { nodes } s.listing).events.entries.entries = s.listing :=
    entries_withEvents (s := { nodes }) eventsWelcome
  have types : (withEvents { nodes } s.listing).groups.keys = s.groups.keys := by
    rw [keys_groups_withEvents (s := { nodes }) eventsWelcome]
    exact h.grouped.types_listing
  generalize withEvents { nodes } s.listing = t at loaded consistent ofNodes ofEvents types
  -- from here on it counts only that the same events are there: the indices follow from it
  have perm := h.grouped.perm_listing
  rw [← ofEvents] at perm
  have sameEvents := Shelf.get?_of_perm perm
  have groups : t.groups = s.groups :=
    OrderedMap.ext_get? types fun typeName =>
      consistent.groups.get?_eq h.groups (ofEvents ▸ h.grouped.keysOfType_listing typeName)
  have grouped : t.groupedEvents = s.groupedEvents := by
    simp only [groupedEvents, groups, funext sameEvents]
  refine ⟨t, loaded, consistent, ofNodes, ?_, perm, ?_, groups, grouped,
    h.perm_incidentEvents consistent perm, ?_⟩
  · refine h.nodes.holders_eq consistent.nodes fun key => ?_
    rw [Shelf.get?, ofNodes, OrderedMap.get?_mapValues, Option.map_map]
    rfl
  · exact h.events.holders_eq consistent.events fun key => by rw [sameEvents]
  · have sameNodes : t.nodes.values.map Node.duplicate = s.nodes.values.map Node.duplicate := by
      have values : t.nodes.values = s.copy.nodes.values := congrArg OrderedMap.values ofNodes
      rw [values, values_copy, List.map_map]
      rfl
    rw [toDocument, toDocument, grouped, sameNodes]

/-- Roads as well as canals have unique properties, but none here is known. -/
def canalCatalog : Catalog :=
  let canal : EventDefinition := { key := ⟨"Canal", "Town", "Town"⟩, uniqueIndex := ["toll"] }
  (roadCatalog.putEvent canal false).toOption.getD .empty

/-- A town with a road to itself, and a canal and a road between towns that are not there. -/
def waterside : Store :=
  let canal : Event := .between "Canal" "c" (.named "Town" "x") (.named "Town" "y")
  let road : Event := .between "Road" "r" (.named "Town" "y") (.named "Town" "a")
  (((roads [("a", "a")]).addEvent canalCatalog canal false).2.addEvent canalCatalog road false).2

/-- The canal was built between the two roads; it comes after them in the document. -/
theorem waterside_reloaded :
    waterside.listing.map Prod.fst = ["RoadaTownaTownr", "RoadyTownaTownr", "CanalxTownyTownc"] ∧
      ∃ t, ofDocument canalCatalog waterside.toDocument = .ok t ∧ Reloaded waterside t := by
  have consistent : waterside.Consistent :=
    ((consistent_roads _).addEvent canalCatalog _ false).addEvent canalCatalog _ false
  refine ⟨by decide +kernel, reload consistent ⟨?_, ?_, ?_⟩⟩
  · decide +kernel
  · decide +kernel
  · decide +kernel

end Store

end SchemaGraph
