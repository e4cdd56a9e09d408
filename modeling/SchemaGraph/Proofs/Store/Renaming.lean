import Mathlib.Data.List.Forall2
import SchemaGraph.Proofs.Store.Repointing
import SchemaGraph.Proofs.Store.Views

/-! # An update of a node renames it

With moves that are apart, an update that gives a node another key is a renaming of the
graph: nodes and events stay in their places, and the ends at the node follow it.
-/

namespace SchemaGraph.Store

variable {c : Catalog} {s s' : Store} {sourceKey targetKey sourceId : String} {target : Node}

/-- What an event at a renamed node becomes. -/
structure Repointed (c : Catalog) (sourceKey : String) (target : Node) (old new : Event) : Prop
    extends Led sourceKey target old new where
  fingerprint : Entity.computeFingerprint c new = .ok (Entity.fingerprint new)

/-- What any event becomes when a node is renamed. -/
def Follows (c : Catalog) (sourceKey : String) (target : Node) (old new : Event) : Prop :=
  if sourceKey ∈ old.endKeys then Repointed c sourceKey target old new else new = old

/-- The store after a node is renamed to a target, of which `stored` is what the store keeps. -/
structure Renamed (c : Catalog) (sourceKey targetKey : String) (target stored : Node)
    (s s' : Store) : Prop where
  consistent : s'.Consistent
  stamping : Entity.stamped c target = .ok stored
  nodes : s'.nodes.entries.entries = s.nodes.entries.entries.map fun entry =>
    if entry.1 = sourceKey then (targetKey, stored) else entry
  /-- Each event keeps its place, and also its key unless it follows the node. -/
  events : List.Forall₂
    (fun old new => Follows c sourceKey target old.2 new.2 ∧
      Entity.logicKey? new.2 = some new.1 ∧ (sourceKey ∉ old.2.endKeys → new.1 = old.1))
    s.events.entries.entries s'.events.entries.entries
  size : s'.events.entries.size = s.events.entries.size
  groups : List.Forall₂
    (fun old new => new.1 = old.1 ∧ List.Forall₂ (Follows c sourceKey target) old.2 new.2)
    s.groupedEvents.entries s'.groupedEvents.entries
  parted {e : Event} : e ∈ s'.events.values → sourceKey ∉ e.endKeys
  incident (e : Event) : e ∈ s'.incidentEvents targetKey ↔
    ∃ d, (d ∈ s.incidentEvents sourceKey ∨ d ∈ s.incidentEvents targetKey) ∧
      Follows c sourceKey target d e

/-- What an event becomes is determined. -/
theorem Repointed.unique {old one other : Event} (h : Repointed c sourceKey target old one)
    (g : Repointed c sourceKey target old other) : one = other := by
  have upToFingerprint : other = Entity.withFingerprint one (Entity.fingerprint other) :=
    eq_withFingerprint (g.left.trans h.left.symm) (g.right.trans h.right.symm)
      (g.membership.trans h.membership.symm) (g.core.trans h.core.symm)
  have same := g.fingerprint
  rw [upToFingerprint, Entity.computeFingerprint_withFingerprint, h.fingerprint,
    Entity.fingerprint_withFingerprint, Except.ok.injEq] at same
  rw [upToFingerprint, ← same]
  rfl

theorem Follows.unique {old one other : Event} (h : Follows c sourceKey target old one)
    (g : Follows c sourceKey target old other) : one = other := by
  rw [Follows] at h g
  split at h
  · rename_i touches
    rw [if_pos touches] at g
    exact h.unique g
  · rename_i away
    rw [if_neg away] at g
    exact h.trans g.symm

theorem Planned.follows_finalEntry (h : s.Consistent) {moves : List Move}
    (keyed : Entity.logicKey? target = some targetKey)
    (planned : Planned c s.events sourceKey target (s.adjacency.eventsAt sourceKey) moves)
    {entry : String × Event} (inside : entry ∈ s.events.entries.entries) :
    Follows c sourceKey target entry.2
      (finalEntry c sourceKey target (s.adjacency.eventsAt sourceKey) entry).2 := by
  by_cases touches : sourceKey ∈ entry.2.endKeys
  · have isMoving := (touches_iff_moving h.adjacency inside).mp touches
    obtain ⟨m, listed, rfl, became⟩ := planned.move_of_entry inside isMoving
    rw [Follows, if_pos touches, finalEntry, if_pos isMoving, became]
    refine ⟨planned.led keyed listed, ?_⟩
    obtain ⟨f, computed, given⟩ := Entity.stamped_eq_ok_iff.mp (planned.sound listed).stamping
    rw [given, Entity.computeFingerprint_withFingerprint, computed,
      Entity.fingerprint_withFingerprint]
  · have stays : entry.1 ∉ s.adjacency.eventsAt sourceKey := fun isMoving =>
      touches ((touches_iff_moving h.adjacency inside).mpr isMoving)
    rw [Follows, if_neg touches, finalEntry, if_neg stays]

theorem Follows.typeName {old new : Event} (follows : Follows c sourceKey target old new) :
    new.core.typeName = old.core.typeName := by
  rw [Follows] at follows
  split at follows
  · exact follows.typeName
  · rw [follows]

/-- Groups that keep their order list events that follow the node in the places of the old. -/
theorem groupedEvents_follow (h : s.Consistent) (h' : s'.Consistent)
    (sameTypes : s'.groups.keys = s.groups.keys)
    (follows : List.Forall₂ (Follows c sourceKey target) s.events.values s'.events.values) :
    List.Forall₂
      (fun old new => new.1 = old.1 ∧ List.Forall₂ (Follows c sourceKey target) old.2 new.2)
      s.groupedEvents.entries s'.groupedEvents.entries := by
  rw [h.grouped.entries_groupedEvents, h'.grouped.entries_groupedEvents, sameTypes,
    List.forall₂_map_left_iff, List.forall₂_map_right_iff, List.forall₂_same]
  intro typeName _
  refine ⟨rfl, List.rel_filter ?_ follows⟩
  intro old new follow
  simp only [follow.typeName]

section

variable {moves : List Move}

theorem Planned.follow_events (h : s.Consistent)
    (keyed : Entity.logicKey? target = some targetKey)
    (planned : Planned c s.events sourceKey target (s.adjacency.eventsAt sourceKey) moves)
    (repointsApart : s.RepointsApart sourceKey target) :
    List.Forall₂
      (fun old new => Follows c sourceKey target old.2 new.2 ∧
        Entity.logicKey? new.2 = some new.1 ∧ (sourceKey ∉ old.2.endKeys → new.1 = old.1))
      s.events.entries.entries
      (s.applyMoves sourceKey targetKey moves).events.entries.entries := by
  have consistent := h.applyMoves keyed planned repointsApart
  have entries := planned.entries_applyMoves h targetKey repointsApart
  have own {entry : String × Event}
      (inside : entry ∈ (s.applyMoves sourceKey targetKey moves).events.entries.entries) :
      Entity.logicKey? entry.2 = some entry.1 :=
    consistent.events.keyed ((Shelf.mem_entries_iff ..).mp inside)
  rw [entries] at own ⊢
  rw [List.forall₂_map_right_iff, List.forall₂_same]
  intro entry inside
  refine ⟨planned.follows_finalEntry h keyed inside, own (List.mem_map_of_mem inside), ?_⟩
  intro away
  have stays : entry.1 ∉ s.adjacency.eventsAt sourceKey := fun isMoving =>
    away ((touches_iff_moving h.adjacency inside).mpr isMoving)
  rw [finalEntry, if_neg stays]

theorem Planned.incident_applyMoves (h : s.Consistent)
    (keyed : Entity.logicKey? target = some targetKey) (changed : targetKey ≠ sourceKey)
    (planned : Planned c s.events sourceKey target (s.adjacency.eventsAt sourceKey) moves)
    (repointsApart : s.RepointsApart sourceKey target) (e : Event) :
    e ∈ (s.applyMoves sourceKey targetKey moves).incidentEvents targetKey ↔
      ∃ d, (d ∈ s.incidentEvents sourceKey ∨ d ∈ s.incidentEvents targetKey) ∧
        Follows c sourceKey target d e := by
  have consistent := h.applyMoves keyed planned repointsApart
  have entries := planned.entries_applyMoves h targetKey repointsApart
  have values : (s.applyMoves sourceKey targetKey moves).events.values =
      s.events.entries.entries.map fun entry =>
        (finalEntry c sourceKey target (s.adjacency.eventsAt sourceKey) entry).2 := by
    rw [Shelf.values, OrderedMap.values, entries, List.map_map]
    rfl
  rw [consistent.mem_incidentEvents, values]
  simp only [h.mem_incidentEvents]
  constructor
  · rintro ⟨listed, touches⟩
    obtain ⟨entry, inside, rfl⟩ := List.mem_map.mp listed
    refine ⟨entry.2, ?_, planned.follows_finalEntry h keyed inside⟩
    have held : entry.2 ∈ s.events.values := List.mem_map_of_mem inside
    rcases (planned.mem_endKeys_finalEntry h keyed inside targetKey).mp touches with
      ⟨touched, _⟩ | ⟨touched, _⟩
    · exact Or.inr ⟨held, touched⟩
    · exact Or.inl ⟨held, touched⟩
  · rintro ⟨d, before, follows⟩
    have held : d ∈ s.events.values := before.elim And.left And.left
    obtain ⟨entry, inside, rfl⟩ := List.mem_map.mp held
    rw [follows.unique (planned.follows_finalEntry h keyed inside)]
    refine ⟨List.mem_map_of_mem inside,
      (planned.mem_endKeys_finalEntry h keyed inside targetKey).mpr ?_⟩
    rcases before with ⟨_, touched⟩ | ⟨_, touched⟩
    · exact Or.inr ⟨touched, rfl⟩
    · exact Or.inl ⟨touched, changed⟩

theorem Planned.parted_applyMoves (h : s.Consistent)
    (keyed : Entity.logicKey? target = some targetKey) (changed : targetKey ≠ sourceKey)
    (planned : Planned c s.events sourceKey target (s.adjacency.eventsAt sourceKey) moves)
    (repointsApart : s.RepointsApart sourceKey target) {e : Event}
    (held : e ∈ (s.applyMoves sourceKey targetKey moves).events.values) :
    sourceKey ∉ e.endKeys := by
  obtain ⟨new, listed, rfl⟩ := List.mem_map.mp held
  rw [planned.entries_applyMoves h targetKey repointsApart] at listed
  obtain ⟨entry, inside, rfl⟩ := List.mem_map.mp listed
  rw [planned.mem_endKeys_finalEntry h keyed inside]
  rintro (⟨_, away⟩ | ⟨_, same⟩)
  · exact away rfl
  · exact changed same.symm

end

/-- A successful update that gives a node another key, and the events at it keys apart from
    each other, renames the node and leaves everything else as it was. -/
theorem updateNode_renamed (h : s.Consistent) {stored : Node}
    (updated : s.updateNode c sourceKey sourceId target = (.ok stored, s'))
    (keyed : Entity.logicKey? target = some targetKey) (changed : targetKey ≠ sourceKey)
    (repointsApart : s.RepointsApart sourceKey target) :
    Renamed c sourceKey targetKey target stored s s' := by
  obtain ⟨r, passed, rfl, outcome⟩ := updateNode_eq_ok updated
  obtain ⟨ofTarget, placed, found, _, free, _, taken⟩ := Shelf.replacement_eq_ok_iff.mp passed
  obtain rfl : targetKey = r.key := Option.some_inj.mp (keyed.symm.trans ofTarget)
  obtain ⟨same, _⟩ | ⟨_, moves, planned, rfl⟩ := outcome
  · exact absurd same changed
  have replaced := h.withNodes (h.nodes.replace passed rfl rfl)
  have events := Planned.follow_events replaced keyed planned repointsApart
  have consistent := replaced.applyMoves keyed planned repointsApart
  exact {
    consistent
    stamping := (Shelf.admitted_eq_ok_iff.mp taken).1
    nodes := by
      simp only [applyMoves, nodes_foldl_pullMove]
      exact Shelf.entries_replace placed found free
    events
    size := events.length_eq.symm
    groups := by
      refine groupedEvents_follow h consistent ?_ ?_
      · simp only [applyMoves, keys_groups_foldl_pullMove]
      · refine List.forall₂_map_left_iff.mpr (List.forall₂_map_right_iff.mpr ?_)
        exact events.imp fun _ _ follow => follow.1
    parted := Planned.parted_applyMoves replaced keyed changed planned repointsApart
    incident := Planned.incident_applyMoves replaced keyed changed planned repointsApart }

/-- A town with a road to itself is called like one that has a road of its own already. -/
theorem roads_renamed :
    let s := roads [("a", "a"), ("x", "y"), ("b", "a"), ("z", "c")]
    ∃ stored s', s.updateNode roadCatalog "Towna" "a" (.named "Town" "z") = (.ok stored, s') ∧
      Renamed roadCatalog "Towna" "Townz" (.named "Town" "z") stored s s' := by
  intro s
  have succeeds : (s.updateNode roadCatalog "Towna" "a" (.named "Town" "z")).1.isOk = true := by
    decide +kernel
  obtain ⟨stored, s', updated⟩ := exists_of_isOk succeeds
  exact ⟨stored, s', updated, updateNode_renamed (consistent_roads _) updated
    (by decide +kernel) (by decide) (by decide +kernel)⟩

end SchemaGraph.Store
