import SchemaGraph.Proofs.Store.Contents

/-! # The contract of adding

An entity that is to be added is left out, or its fingerprint cannot be computed, or another one
carries its fingerprint, or it is taken in. What the store holds tells which it is, and nobody but
the entity that stood in its place notices that an entity has come.
-/

namespace SchemaGraph

namespace Shelf

variable {ε : Type} [Entity ε] {c : Catalog} {s s' : Shelf ε} {e : ε} {overwrite : Bool}
  {key : String}

/-! ## Answers -/

/-- Nothing keeps an effective entity from coming onto the shelf under its key. -/
def HasRoom (s : Shelf ε) (e : ε) (overwrite : Bool) (key : String) : Prop :=
  Entity.logicKey? e = some key ∧ (overwrite = false → s.contains key = false)

/-- The entity under a key carries a fingerprint. -/
def Carries (s : Shelf ε) (key digest : String) : Prop :=
  ∃ e, s.get? key = some e ∧ Entity.fingerprint e = some digest

theorem verdict_of_room (room : s.HasRoom e overwrite key) :
    s.verdict c e overwrite = (s.admitted c key key e).map fun taken => some (key, taken) := by
  obtain ⟨keyed, free⟩ := room
  rw [verdict, keyed]
  exact if_neg (by simpa using free)

theorem verdict_eq_none_iff_noRoom :
    s.verdict c e overwrite = .ok none ↔ ∀ key, ¬ s.HasRoom e overwrite key := by
  rw [verdict_eq_none_iff]
  cases keyed : Entity.logicKey? e with
  | none => simp [HasRoom, keyed]
  | some own => simp [HasRoom, keyed]

theorem verdict_eq_fault_iff {fault : StoreError} : s.verdict c e overwrite = .error fault ↔
    ∃ key, s.HasRoom e overwrite key ∧ s.admitted c key key e = .error fault := by
  constructor
  · intro decided
    by_cases room : ∃ key, s.HasRoom e overwrite key
    · obtain ⟨key, room⟩ := room
      rw [verdict_of_room room] at decided
      exact ⟨key, room, Outcome.map_eq_error_iff.mp decided⟩
    · rw [verdict_eq_none_iff_noRoom.mpr (not_exists.mp room)] at decided
      cases decided
  · rintro ⟨key, room, refusal⟩
    rw [verdict_of_room room]
    exact Outcome.map_eq_error_iff.mpr refusal

/-- When each of the answers is given to an entity that is to be added. The fingerprint counts
    only where there is room. -/
structure Answers (c : Catalog) (s : Shelf ε) (e : ε) (overwrite : Bool)
    (answer : Except StoreError Bool) : Prop where
  leftOut : answer = .ok false ↔ Entity.isEffective e = false ∨
    overwrite = false ∧ ∃ key, Entity.logicKey? e = some key ∧ s.contains key = true
  uncomputable (cause : EntityError) : answer = .error (.entity cause) ↔
    (∃ key, s.HasRoom e overwrite key) ∧ Entity.computeFingerprint c e = .error cause
  violation (kind digest holder incoming : String) :
    answer = .error (.uniqueness kind digest holder incoming) ↔
      s.HasRoom e overwrite incoming ∧ kind = Entity.kind e ∧
        Entity.computeFingerprint c e = .ok (some digest) ∧
          s.Carries holder digest ∧ holder ≠ incoming
  taken : answer = .ok true ↔ ∃ key f, s.HasRoom e overwrite key ∧
    Entity.computeFingerprint c e = .ok f ∧
      ∀ digest holder, f = some digest → s.Carries holder digest → holder = key
  noOther (fault : UpdateFault) : answer ≠ .error (.update fault)

theorem verdict_eq_given_iff [LawfulEntity ε] (h : s.Consistent) {taken : ε} :
    s.verdict c e overwrite = .ok (some (key, taken)) ↔ s.HasRoom e overwrite key ∧
      ∃ f, Entity.computeFingerprint c e = .ok f ∧ taken = Entity.withFingerprint e f ∧
        ∀ digest holder, f = some digest → s.Carries holder digest → holder = key := by
  rw [verdict_eq_some_iff, admitted_eq_ok_iff, Entity.stamped_eq_ok_iff, ← and_assoc]
  apply and_congr Iff.rfl
  constructor
  · rintro ⟨⟨f, computed, rfl⟩, free⟩
    refine ⟨f, computed, rfl, fun digest holder carried carries => ?_⟩
    exact free digest holder (by simpa using carried) (h.holds.mpr carries)
  · rintro ⟨f, computed, rfl, free⟩
    refine ⟨⟨f, computed, rfl⟩, fun digest holder carried heldBy => ?_⟩
    exact free digest holder (by simpa using carried) (h.holds.mp heldBy)

theorem Consistent.answers [LawfulEntity ε] (h : s.Consistent) (c : Catalog) (e : ε)
    (overwrite : Bool) :
    s.Answers c e overwrite ((s.verdict c e overwrite).map Option.isSome) where
  leftOut := by
    have unkeyed : Entity.isEffective e = false ↔ Entity.logicKey? e = none := by
      rw [Bool.eq_false_iff, ne_eq, Entity.isEffective_iff]
      cases Entity.logicKey? e <;> simp
    rw [unkeyed, ← verdict_eq_none_iff (c := c)]
    rcases s.verdict c e overwrite with cause | _ | taken <;> simp [Except.map]
  uncomputable cause := by
    rw [Outcome.map_eq_error_iff, verdict_eq_fault_iff]
    simp only [admitted_eq_error_iff]
    constructor
    · rintro ⟨key, room, ⟨_, computed, same⟩ | ⟨_, _, _, _, _, same⟩⟩
      · cases same
        exact ⟨⟨key, room⟩, computed⟩
      · cases same
    · rintro ⟨⟨key, room⟩, computed⟩
      exact ⟨key, room, Or.inl ⟨cause, computed, rfl⟩⟩
  violation kind digest holder incoming := by
    rw [Outcome.map_eq_error_iff, verdict_eq_fault_iff]
    simp only [admitted_eq_error_iff]
    constructor
    · rintro ⟨key, room, ⟨_, _, same⟩ | ⟨_, _, computed, heldBy, other, same⟩⟩
      · cases same
      · cases same
        exact ⟨room, rfl, computed, h.holds.mp heldBy, other⟩
    · rintro ⟨room, rfl, computed, carries, other⟩
      exact ⟨incoming, room, Or.inr ⟨digest, holder, computed, h.holds.mpr carries, other, rfl⟩⟩
  taken := by
    have given : (s.verdict c e overwrite).map Option.isSome = .ok true ↔
        ∃ key taken, s.verdict c e overwrite = .ok (some (key, taken)) := by
      rcases s.verdict c e overwrite with cause | _ | ⟨key, taken⟩ <;> simp [Except.map]
    rw [given]
    simp only [verdict_eq_given_iff h]
    constructor
    · rintro ⟨key, _, room, f, computed, -, free⟩
      exact ⟨key, f, room, computed, free⟩
    · rintro ⟨key, f, room, computed, free⟩
      exact ⟨key, Entity.withFingerprint e f, room, f, computed, rfl, free⟩
  noOther fault failed := by
    rw [Outcome.map_eq_error_iff, verdict_eq_fault_iff] at failed
    obtain ⟨key, _, refusal⟩ := failed
    rcases admitted_eq_error_iff.mp refusal with ⟨_, _, same⟩ | ⟨_, _, _, _, _, same⟩
    · cases same
    · cases same

/-! ## Traces -/

/-- A shelf after an entity has come onto it: the entity stands last, whatever stood under its key
    is gone, and of the others nothing is changed. -/
structure Took (s s' : Shelf ε) (key : String) (e : ε) : Prop where
  entries : s'.entries.entries = Entries.without key s.entries.entries ++ [(key, e)]
  holders (digest : String) : s'.holders.get? digest =
    if Entity.fingerprint e = some digest then some key
    else (s.holders.get? digest).filter (· ≠ key)

omit [Entity ε] in
theorem get?_of_entries
    (entries : s'.entries.entries = Entries.without key s.entries.entries ++ [(key, e)])
    (other : String) : s'.get? other = if other = key then some e else s.get? other := by
  refine Option.ext fun d => ?_
  rw [← mem_entries_iff, entries, List.mem_append, List.mem_singleton, Prod.mk.injEq]
  by_cases same : other = key
  · simp [Entries.without, same, eq_comm]
  · simp [Entries.without, same, mem_entries_iff]

/-- Who holds a fingerprint once an entity has taken the place of another one, or of none. -/
theorem Consistent.holders_of_lookup (h : s.Consistent) (h' : s'.Consistent) {sourceKey : String}
    (lookup : ∀ other, s'.get? other =
      if other = key then some e else if other = sourceKey then none else s.get? other)
    (free : key = sourceKey ∨ s.contains key = false) (digest : String) :
    s'.holders.get? digest =
      if Entity.fingerprint e = some digest then some key
      else (s.holders.get? digest).filter (· ≠ sourceKey) := by
  have here : s'.get? key = some e := (lookup key).trans (if_pos rfl)
  refine Option.ext fun holder => ?_
  rw [h'.holds]
  by_cases carried : Entity.fingerprint e = some digest
  · rw [if_pos carried, Option.some_inj]
    constructor
    · rintro ⟨d, held, carries⟩
      exact h'.fingerprint_unique here held carried carries
    · rintro rfl
      exact ⟨e, here, carried⟩
  · rw [if_neg carried, Option.filter_eq_some_iff, h.holds, decide_eq_true_eq]
    by_cases isNew : holder = key
    · rcases free with same | absent
      · simp [isNew, same, lookup, carried]
      · have notFound : s.get? key = none := (s.entries.get?_eq_none_iff key).mpr absent
        simp [isNew, here, carried, notFound]
    · by_cases isOld : holder = sourceKey
      · subst isOld
        have gone : s'.get? holder = none := by rw [lookup, if_neg isNew, if_pos rfl]
        simp [gone]
      · simp [lookup, isNew, isOld]

theorem Consistent.took (h : s.Consistent) (h' : s'.Consistent)
    (entries : s'.entries.entries = Entries.without key s.entries.entries ++ [(key, e)]) :
    s.Took s' key e where
  entries := entries
  holders := h.holders_of_lookup h' (fun other => by rw [get?_of_entries entries]; split <;> rfl)
    (Or.inl rfl)

end Shelf

namespace Store

variable {c : Catalog} {s s' : Store}

theorem fst_addNode (c : Catalog) (s : Store) (n : Node) (overwrite : Bool) :
    (s.addNode c n overwrite).1 = (s.nodes.verdict c n overwrite).map Option.isSome := by
  rw [addNode_eq]
  rcases s.nodes.verdict c n overwrite with cause | _ | ⟨key, taken⟩ <;> rfl

theorem fst_addEvent (c : Catalog) (s : Store) (e : Event) (overwrite : Bool) :
    (s.addEvent c e overwrite).1 = (s.events.verdict c e overwrite).map Option.isSome := by
  rw [addEvent_eq]
  rcases s.events.verdict c e overwrite with cause | _ | ⟨key, taken⟩ <;> rfl

theorem entries_withNode (s : Store) (key : String) (n : Node) :
    (s.withNode key n).nodes.entries.entries =
      Entries.without key s.nodes.entries.entries ++ [(key, n)] := by
  have removed : (s.nodes.remove key).2.entries.entries =
      Entries.without key s.nodes.entries.entries := by
    rw [Shelf.entries_remove]
    rfl
  rw [← removed]
  exact OrderedMap.entries_insert_of_absent n (s.nodes.contains_remove key)

/-- A store after a node has come in: events and their indices are what they were. -/
structure TookNode (s s' : Store) (key : String) (n : Node) : Prop where
  nodes : s.nodes.Took s'.nodes key n
  others : s' = { s with nodes := s'.nodes }

/-- The types of the events under other keys. -/
def hasOthersOfType (s : Store) (key typeName : String) : Bool :=
  decide (keysOfType (Entries.without key s.events.entries.entries) typeName ≠ [])

/-- A store after an event has come in: it is listed last in the group of its type and last at
    each of its ends, nothing is left of an event that stood under its key, and the other events
    are listed as they were. -/
structure TookEvent (s s' : Store) (key : String) (e : Event) : Prop where
  events : s.events.Took s'.events key e
  nodes : s'.nodes = s.nodes
  group (typeName : String) : ((s'.groups.get? typeName).getD .empty).members =
    ((s.groups.get? typeName).getD .empty).members.filter (· ≠ key) ++
      if e.core.typeName = some typeName then [key] else []
  types : s'.groups.keys.filter (s.hasOthersOfType key) =
    s.groups.keys.filter (s.hasOthersOfType key)
  incident (node : String) : (s'.adjacency.eventsAt node).members =
    (s.adjacency.eventsAt node).members.filter (· ≠ key) ++
      if node ∈ e.endKeys then [key] else []

/-- At a node that an event does not touch, the event is not listed. -/
theorem Consistent.erase_eventsAt (h : s.Consistent) {key node : String}
    (apart : ∀ e, s.events.get? key = some e → node ∉ e.endKeys) :
    (s.adjacency.eventsAt node).erase key = s.adjacency.eventsAt node := by
  apply OrderedSet.erase_of_absent
  intro listed
  obtain ⟨e, inside, touches⟩ := (h.adjacency node key).mp listed
  exact apart e ((s.events.mem_entries_iff key e).mp inside) touches

/-- Parted from the ends of its event, a key is listed nowhere. -/
theorem Consistent.eventsAt_unlinked (h : s.Consistent) {key : String} {e : Event}
    (found : s.events.get? key = some e) (node : String) :
    (e.endKeys.foldl (fun a node => a.unlink node key) s.adjacency).eventsAt node =
      (s.adjacency.eventsAt node).erase key := by
  rw [Adjacency.eventsAt_foldl_unlink]
  by_cases touches : node ∈ e.endKeys
  · rw [if_pos touches]
  · rw [if_neg touches, h.erase_eventsAt (by simpa [found] using touches)]

theorem Consistent.eventsAt_removeEventAt (h : s.Consistent) (key node : String) :
    (s.removeEventAt key).2.adjacency.eventsAt node = (s.adjacency.eventsAt node).erase key := by
  cases found : s.events.get? key with
  | none =>
      rw [removeEventAt_of_absent found, h.erase_eventsAt (by simp [found])]
  | some e =>
      rw [removeEventAt_of_held found]
      exact h.eventsAt_unlinked found node

theorem Consistent.types_removeEventAt (h : s.Consistent) (key : String) :
    (s.removeEventAt key).2.groups.keys.filter (s.hasOthersOfType key) =
      s.groups.keys.filter (s.hasOthersOfType key) := by
  cases found : s.events.get? key with
  | none => rw [removeEventAt_of_absent found]
  | some e =>
      rw [removeEventAt_of_held found]
      simp only [Store.unindex]
      cases ofType : e.core.typeName with
      | none => rfl
      | some typeName =>
          simp only [TypeGroups.unfile]
          cases grouped : s.groups.get? typeName with
          | none => rfl
          | some group =>
              by_cases empty : (group.erase key).isEmpty = true
              · -- the group goes, since no other event is in it
                have left : keysOfType (Entries.without key s.events.entries.entries) typeName =
                    [] := by
                  rw [keysOfType_without, ← h.groups.listed grouped]
                  exact OrderedSet.isEmpty_iff.mp empty
                simp only [if_pos empty]
                rw [OrderedMap.keys_erase, List.filter_filter]
                apply List.filter_congr
                intro other _
                by_cases same : other = typeName
                · simp [hasOthersOfType, same, left]
                · simp [same]
              · have held : typeName ∈ s.groups.keys := OrderedMap.mem_keys_of_get? grouped
                simp only [if_neg empty]
                rw [OrderedMap.keys_insert, if_pos held]

theorem Consistent.types_withEvent (h : s.Consistent) (key : String) (e : Event) :
    (s.withEvent key e).groups.keys.filter (s.hasOthersOfType key) =
      s.groups.keys.filter (s.hasOthersOfType key) := by
  have removed := h.removeEventAt key
  rw [← h.types_removeEventAt key]
  simp only [withEvent, Store.index]
  cases e.core.typeName with
  | none => rfl
  | some typeName =>
      simp only [TypeGroups.file, OrderedMap.keys_insert]
      by_cases held : typeName ∈ (s.removeEventAt key).2.groups.keys
      · rw [if_pos held]
      · have none : s.hasOthersOfType key typeName = false := by
          rw [OrderedMap.mem_keys_iff, removed.groups.held, entries_removeEventAt] at held
          exact decide_eq_false held
        rw [if_neg held, List.filter_append, List.filter_cons_of_neg (by simp [none]),
          List.filter_nil, List.append_nil]

theorem Consistent.tookEvent (h : s.Consistent) {key : String} {e : Event}
    (h' : (s.withEvent key e).Consistent) : s.TookEvent (s.withEvent key e) key e where
  events := h.events.took h'.events (entries_withEvent s key e)
  nodes := nodes_removeEventAt s key
  group typeName := by
    rw [h'.groups.members, h.groups.members, entries_withEvent, keysOfType_append,
      keysOfType_without]
    by_cases ofType : e.core.typeName = some typeName
    · simp [keysOfType, ofType]
    · simp [keysOfType, ofType]
  types := h.types_withEvent key e
  incident node := by
    simp only [withEvent, Store.index, Adjacency.eventsAt_foldl_link, h.eventsAt_removeEventAt]
    by_cases touches : node ∈ e.endKeys
    · rw [if_pos touches, if_pos touches, OrderedSet.members_insert_of_absent (by simp)]
      rfl
    · rw [if_neg touches, if_neg touches, List.append_nil]
      rfl

/-- What adding a node or an event answers, and what it does to the store. -/
structure InsertsExactly (c : Catalog) (s : Store) : Prop where
  node (n : Node) (overwrite : Bool) :
    s.nodes.Answers c n overwrite (s.addNode c n overwrite).1
  nodeTaken (n : Node) (overwrite : Bool) : (s.addNode c n overwrite).1 = .ok true →
    ∃ key f, Entity.logicKey? n = some key ∧ Entity.computeFingerprint c n = .ok f ∧
      s.TookNode (s.addNode c n overwrite).2 key (Entity.withFingerprint n f)
  nodeNotTaken (n : Node) (overwrite : Bool) : (s.addNode c n overwrite).1 ≠ .ok true →
    (s.addNode c n overwrite).2 = s
  event (e : Event) (overwrite : Bool) :
    s.events.Answers c e overwrite (s.addEvent c e overwrite).1
  eventTaken (e : Event) (overwrite : Bool) : (s.addEvent c e overwrite).1 = .ok true →
    ∃ key f, Entity.logicKey? e = some key ∧ Entity.computeFingerprint c e = .ok f ∧
      s.TookEvent (s.addEvent c e overwrite).2 key ((Entity.withFingerprint e f).withMembership c)
  eventNotTaken (e : Event) (overwrite : Bool) : (s.addEvent c e overwrite).1 ≠ .ok true →
    (s.addEvent c e overwrite).2 = s

/-- In a consistent store, an entity that is added is left out when it is not effective or its
    place is taken, else is refused when its fingerprint cannot be computed or another entity
    carries it, and else comes in as the last one, with nothing else changed. -/
theorem Consistent.inserts_exactly (h : s.Consistent) (c : Catalog) : s.InsertsExactly c where
  node n overwrite := by
    rw [fst_addNode]
    exact h.nodes.answers c n overwrite
  nodeTaken n overwrite added := by
    have after := (h.addNode c n overwrite).nodes
    rw [addNode_eq] at added after ⊢
    rcases decided : s.nodes.verdict c n overwrite with cause | _ | ⟨key, taken⟩
    · rw [decided] at added
      cases added
    · rw [decided] at added
      cases added
    · rw [decided] at after
      obtain ⟨room, f, computed, rfl, -⟩ := (Shelf.verdict_eq_given_iff h.nodes).mp decided
      exact ⟨key, f, room.1, computed, h.nodes.took after (entries_withNode ..), rfl⟩
  nodeNotTaken n overwrite refused := by
    rw [addNode_eq] at refused ⊢
    rcases decided : s.nodes.verdict c n overwrite with cause | _ | ⟨key, taken⟩
    · rfl
    · rfl
    · rw [decided] at refused
      exact absurd rfl refused
  event e overwrite := by
    rw [fst_addEvent]
    exact h.events.answers c e overwrite
  eventTaken e overwrite added := by
    have after := h.addEvent c e overwrite
    rw [addEvent_eq] at added after ⊢
    rcases decided : s.events.verdict c e overwrite with cause | _ | ⟨key, taken⟩
    · rw [decided] at added
      cases added
    · rw [decided] at added
      cases added
    · rw [decided] at after
      obtain ⟨room, f, computed, rfl, -⟩ := (Shelf.verdict_eq_given_iff h.events).mp decided
      exact ⟨key, f, room.1, computed, h.tookEvent after⟩
  eventNotTaken e overwrite refused := by
    rw [addEvent_eq] at refused ⊢
    rcases decided : s.events.verdict c e overwrite with cause | _ | ⟨key, taken⟩
    · rfl
    · rfl
    · rw [decided] at refused
      exact absurd rfl refused

/-- An event of another type and between other nodes has the logic identifier of a road. When it
    overwrites the road, the road is gone from the group of roads and from its towns. -/
theorem road_overwritten :
    let road := Event.between "Road" "r" (.named "Town" "a") (.named "Town" "b")
    let other := Event.between "Roada" "r" (.named "b" "Town") (.named "wn" "To")
    let s := (Store.empty.addEvent .empty road false).2
    let s' := (s.addEvent .empty other true).2
    s.groups.keys = ["Road"] ∧ (s.adjacency.eventsAt "Towna").members = ["RoadaTownbTownr"] ∧
      (∃ key e, s.TookEvent s' key e) ∧
      s'.groups.keys = ["Roada"] ∧ (s'.adjacency.eventsAt "Towna").members = [] ∧
      (s'.adjacency.eventsAt "bTown").members = ["RoadaTownbTownr"] := by
  intro road other s s'
  have consistent : s.Consistent := Consistent.empty.addEvent .empty road false
  have added : (s.addEvent .empty other true).1 = .ok true := by decide +kernel
  obtain ⟨key, f, _, _, took⟩ := (consistent.inserts_exactly .empty).eventTaken other true added
  exact ⟨by decide +kernel, by decide +kernel, ⟨key, _, took⟩, by decide +kernel,
    by decide +kernel, by decide +kernel⟩

end Store

end SchemaGraph
