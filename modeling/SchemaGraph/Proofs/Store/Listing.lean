import SchemaGraph.Proofs.Store.Reached

/-! # What documents list

Documents and the other views by type are made from the groups of a store, not from its
events. They list every event once, in the group of its type, as long as no update of a node
gives an event a key that an earlier one of its type still has. Such an update keeps the
event and lists it no more.
-/

namespace SchemaGraph.Store

/-- Groups list some events: each of them once, in the group of its type. -/
structure Lists (groups : OrderedMap String (List Event)) (events : List Event) : Prop where
  typed {typeName : String} {listed : List Event} {e : Event} :
    groups.get? typeName = some listed → e ∈ listed → e.core.typeName = some typeName
  once : groups.values.flatten.Perm events

/-- Whatever a store gives out by types lists all its events and nothing else. -/
structure ListsEvents (s : Store) : Prop where
  document : Lists s.toDocument.events s.events.values
  detached : Lists s.detachedEvents (s.events.values.map Event.detached)
  ofType (typeName : String) : s.eventsOfType typeName =
    s.events.values.filter fun e => decide (e.core.typeName = some typeName)
  size : s.toDocument.events.values.flatten.length = s.events.entries.size

variable {s s' : Store}

theorem Grouped.perm_groupedEvents (h : s.Grouped) :
    s.groupedEvents.values.flatten.Perm s.events.values :=
  h.values_groupedEvents ▸ h.perm_listing.map Prod.snd

theorem Grouped.listsEvents (h : s.Grouped) : s.ListsEvents := by
  have typed {typeName : String} {listed : List Event} {e : Event}
      (found : s.groupedEvents.get? typeName = some listed) (inside : e ∈ listed) :
      e.core.typeName = some typeName := by
    rw [OrderedMap.get?_eq_some_iff, h.entries_groupedEvents] at found
    obtain ⟨_, _, same⟩ := List.mem_map.mp found
    obtain ⟨rfl, rfl⟩ := Prod.mk.inj same
    exact of_decide_eq_true (List.mem_filter.mp inside).2
  refine ⟨⟨typed, h.perm_groupedEvents⟩, ⟨?_, ?_⟩, fun typeName => ?_, ?_⟩
  · intro typeName listed e found inside
    rw [detachedEvents, OrderedMap.get?_mapValues, Option.map_eq_some_iff] at found
    obtain ⟨events, found, rfl⟩ := found
    obtain ⟨d, original, rfl⟩ := List.mem_map.mp inside
    have ofType := typed found original
    exact ofType
  · have values : s.detachedEvents.values =
        s.groupedEvents.values.map (List.map Event.detached) := by
      simp only [detachedEvents, OrderedMap.values, OrderedMap.mapValues, List.map_map]
      rfl
    rw [values, ← List.map_flatten]
    exact h.perm_groupedEvents.map Event.detached
  · rw [eventsOfType, h.groups.members, filterMap_get?_keysOfType]
  · exact h.perm_groupedEvents.length_eq.trans (List.length_map _)

/-! ## What keeps the groups -/

theorem Grouped.kept (c : Catalog) : KeptUnder c Grouped where
  empty := .empty
  addNode n overwrite h := by
    rw [addNode_eq]
    split
    · exact h
    · exact h
    · exact h.congr rfl rfl
  removeNodeAt _ h := h.congr rfl rfl
  clearNodes h := h.congr rfl rfl
  addEvent e overwrite h := h.addEvent c e overwrite
  removeEventAt key h := h.removeEventAt key
  updateEvent sourceKey sourceId target h := h.updateEvent c sourceKey sourceId target
  clearEvents {s} _ := .clearEvents s
  setOperation operation h := h.setOperation operation

variable {c : Catalog} {sourceKey targetKey sourceId : String} {target : Node}
  {moving : OrderedSet String} {moves : List Move}

theorem Planned.grouped_applyMoves (h : s.Grouped)
    (keyed : Entity.logicKey? target = some targetKey)
    (planned : Planned c s.events sourceKey target moving moves)
    (different : (moves.map Move.key).Nodup)
    (inOrder : (movesOnShelf c s.events sourceKey target moving).Pairwise Move.InOrder) :
    (s.applyMoves sourceKey targetKey moves).Grouped := by
  refine ⟨planned.keyed_applyMoves h.keyed, ?_⟩
  have entries := planned.entries_moved different
  rw [← planned.events_applyMoves targetKey] at entries
  rw [entries]
  exact planned.groups_applyMoves h keyed different inOrder

/-- A document lists a moved event only in the group of its type and under its new key. -/
theorem Planned.listed_of_listsEvents (h : s.Grouped)
    (keyed : Entity.logicKey? target = some targetKey)
    (planned : Planned c s.events sourceKey target moving moves)
    (different : (moves.map Move.key).Nodup)
    (lists : (s.applyMoves sourceKey targetKey moves).ListsEvents) {m : Move} (inside : m ∈ moves)
    {typeName : String} (ofType : m.old.core.typeName = some typeName) :
    ∃ group, (s.applyMoves sourceKey targetKey moves).groups.get? typeName = some group ∧
      m.key ∈ group := by
  have sound := planned.sound inside
  have held : (s.applyMoves sourceKey targetKey moves).events.get? m.key = some m.event := by
    rw [planned.events_applyMoves]
    exact planned.held_moved different inside
  -- the event is in some group: it is that of its type, and its key there is its own
  have own := planned.keyed_applyMoves h.keyed held
  have value : m.event ∈ (s.applyMoves sourceKey targetKey moves).events.values :=
    List.mem_map_of_mem ((Shelf.mem_entries_iff ..).mpr held)
  obtain ⟨listed, isGroup, inGroup⟩ :=
    List.mem_flatten.mp (lists.document.once.mem_iff.mpr value)
  obtain ⟨⟨other, _⟩, entry, rfl⟩ := List.mem_map.mp isGroup
  have sameType := lists.document.typed ((OrderedMap.get?_eq_some_iff ..).mpr entry) inGroup
  rw [(planned.led keyed inside).typeName, ofType, Option.some_inj] at sameType
  subst sameType
  obtain ⟨⟨_, group⟩, groupEntry, same⟩ := List.mem_map.mp entry
  obtain ⟨rfl, rfl⟩ := Prod.mk.inj same
  obtain ⟨key, inMembers, found⟩ := List.mem_filterMap.mp inGroup
  have underKey := (planned.keyed_applyMoves h.keyed found).symm.trans own
  rw [Option.some_inj] at underKey
  exact ⟨group, (OrderedMap.get?_eq_some_iff ..).mpr groupEntry, underKey ▸ inMembers⟩

/-- A successful update of a node that gives its events different keys goes on listing all of
    them exactly when it refiles them in order. -/
theorem Grouped.updateNode_iff (h : s.Grouped) {stored : Node}
    (updated : s.updateNode c sourceKey sourceId target = (.ok stored, s'))
    (changed : Entity.logicKey? target ≠ some sourceKey)
    (different : (s.newKeys sourceKey target).Nodup) :
    (s'.ListsEvents ↔ s.RefilesInOrder sourceKey target) ∧
      (s.RefilesInOrder sourceKey target → s'.Grouped) := by
  obtain ⟨r, passed, -, outcome⟩ := updateNode_eq_ok updated
  obtain ⟨keyed, _⟩ := Shelf.replacement_eq_ok_iff.mp passed
  obtain ⟨same, _⟩ | ⟨_, moves, planned, rfl⟩ := outcome
  · exact absurd (same ▸ keyed) changed
  rw [planned.newKeys_eq, List.nodup_map_iff fun _ _ => Option.some_inj.mp] at different
  rw [planned.refilesInOrder_iff]
  have replaced : Grouped { s with nodes := s.nodes.replace sourceKey r } := h.congr rfl rfl
  have grouped := Planned.grouped_applyMoves replaced keyed planned different
  refine ⟨⟨fun lists => ?_, fun inOrder => (grouped inOrder).listsEvents⟩, grouped⟩
  refine Planned.inOrder_of_listed (s := { s with nodes := s.nodes.replace sourceKey r }) replaced
    r.key planned different fun m inside typeName ofType => ?_
  exact Planned.listed_of_listsEvents replaced keyed planned different lists inside ofType

/-! ## Reached stores -/

/-- A successful update of a node that gives it another key gives its events different keys,
    and refiles them in order. -/
def Action.RefilesApart (c : Catalog) (s : Store) : Action → Prop
  | .updateNode sourceKey sourceId target =>
      (s.updateNode c sourceKey sourceId target).1.isOk = true →
        Entity.logicKey? target ≠ some sourceKey →
          (s.newKeys sourceKey target).Nodup ∧ s.RefilesInOrder sourceKey target
  | _ => True

theorem Grouped.updateNode (h : s.Grouped) (c : Catalog) (sourceKey sourceId : String)
    (target : Node) (apart : (Action.updateNode sourceKey sourceId target).RefilesApart c s) :
    (s.updateNode c sourceKey sourceId target).2.Grouped := by
  rcases updated : s.updateNode c sourceKey sourceId target with ⟨cause | stored, s'⟩
  · rw [updateNode_eq_error updated]
    exact h
  · by_cases unchanged : Entity.logicKey? target = some sourceKey
    · obtain ⟨r, passed, -, ⟨_, rfl⟩ | ⟨changed, _⟩⟩ := updateNode_eq_ok updated
      · exact h.congr rfl rfl
      · obtain ⟨keyed, _⟩ := Shelf.replacement_eq_ok_iff.mp passed
        exact absurd (Option.some_inj.mp (keyed.symm.trans unchanged)) changed
    · obtain ⟨different, inOrder⟩ := apart (by rw [updated]; rfl) unchanged
      exact (h.updateNode_iff updated unchanged different).2 inOrder

theorem Reached.grouped (h : Reached Action.RefilesApart s) : s.Grouped := by
  induction h with
  | empty => exact .empty
  | step c action _ apart ih =>
      refine (Grouped.kept c).run action ih fun sourceKey sourceId target isUpdate => ?_
      subst isUpdate
      exact ih.updateNode c sourceKey sourceId target apart

/-- Whatever happened to a store, it lists all its events, if every update of a node gave the
    events different keys and refiled them in order. The next update that gives them different
    keys leaves one of them out when it does not refile them in order. -/
theorem Reached.lists_events (h : Reached Action.RefilesApart s) :
    s.ListsEvents ∧
      ∀ (c : Catalog) (sourceKey sourceId : String) (target stored : Node) (s' : Store),
        s.updateNode c sourceKey sourceId target = (.ok stored, s') →
        Entity.logicKey? target ≠ some sourceKey → (s.newKeys sourceKey target).Nodup →
          (s'.ListsEvents ↔ s.RefilesInOrder sourceKey target) := by
  refine ⟨h.grouped.listsEvents, ?_⟩
  intro c sourceKey sourceId target stored s' updated changed different
  exact (h.grouped.updateNode_iff updated changed different).1

/-- The town `a`, and roads between towns by their identifiers and both ends. -/
def namedRoads (names : List (String × String × String)) : Store :=
  names.foldl
    (fun s (id, left, right) => (s.addEvent roadCatalog
      (.between "Road" id (.named "Town" left) (.named "Town" right)) false).2)
    (Store.empty.addNode roadCatalog (.named "Town" "a") false).2

theorem reached_namedRoads (names : List (String × String × String)) :
    Reached Action.RefilesApart (namedRoads names) := by
  have start : Reached Action.RefilesApart
      (Store.empty.addNode roadCatalog (.named "Town" "a") false).2 :=
    .step roadCatalog (.addNode (.named "Town" "a") false) .empty trivial
  exact List.foldlRecOn names _ start fun s reached _ _ =>
    .step roadCatalog (.addEvent _ false) reached trivial

/-- When a town with a road to itself is called like one that has a road of its own already, all
    four roads are listed, also the one that gets the key of a road behind it. -/
theorem renamed_roads_listed :
    let s := namedRoads [("r", "a", "aTown"), ("r", "a", "a"), ("r", "x", "y"), ("Townr", "z", "a")]
    let rename := Action.updateNode "Towna" "a" (.named "Town" "z")
    (rename.run roadCatalog s).ListsEvents ∧
      (rename.run roadCatalog s).events.entries.size = 4 := by
  intro s rename
  have succeeds : (s.updateNode roadCatalog "Towna" "a" (.named "Town" "z")).1.isOk = true := by
    decide +kernel
  obtain ⟨stored, s', updated⟩ := exists_of_isOk succeeds
  have isAfter : rename.run roadCatalog s = s' := congrArg Prod.snd updated
  have changed : Entity.logicKey? (.named "Town" "z" : Node) ≠ some "Towna" := by decide +kernel
  have different : (s.newKeys "Towna" (.named "Town" "z")).Nodup := by decide +kernel
  have inOrder : s.RefilesInOrder "Towna" (.named "Town" "z") := by decide +kernel
  have before : s.events.entries.size = 4 := by decide +kernel
  rw [isAfter]
  exact ⟨((reached_namedRoads _).lists_events.2 _ _ _ _ _ _ updated changed different).mpr inOrder,
    ((size_updateNode_iff updated changed).mpr different).trans before⟩

/-- When two of these roads stand the other way round, the road that gets the key of the one
    before it is kept, but listed no more. -/
theorem overtaking_road_unlisted :
    let s := namedRoads [("Townr", "z", "a"), ("r", "a", "aTown"), ("r", "x", "y")]
    ∃ stored s', s.updateNode roadCatalog "Towna" "a" (.named "Town" "z") = (.ok stored, s') ∧
      s.newKeys "Towna" (.named "Town" "z") =
        [some "RoadzTownzTownTownr", some "RoadzTownaTownTownr"] ∧
      s'.events.entries.size = 3 ∧ ¬ s'.ListsEvents := by
  intro s
  have succeeds : (s.updateNode roadCatalog "Towna" "a" (.named "Town" "z")).1.isOk = true := by
    decide +kernel
  obtain ⟨stored, s', updated⟩ := exists_of_isOk succeeds
  have changed : Entity.logicKey? (.named "Town" "z" : Node) ≠ some "Towna" := by decide +kernel
  have newKeys : s.newKeys "Towna" (.named "Town" "z") =
      [some "RoadzTownzTownTownr", some "RoadzTownaTownTownr"] := by decide +kernel
  have different : (s.newKeys "Towna" (.named "Town" "z")).Nodup := newKeys ▸ by decide
  have before : s.events.entries.size = 3 := by decide +kernel
  refine ⟨stored, s', updated, newKeys, ?_, fun lists => ?_⟩
  · exact ((size_updateNode_iff updated changed).mpr different).trans before
  · have inOrder := ((reached_namedRoads _).grouped.updateNode_iff updated changed different).1.mp
      lists
    exact absurd inOrder (by decide +kernel)

end SchemaGraph.Store
