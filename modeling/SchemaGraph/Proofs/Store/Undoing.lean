import Mathlib.Data.Set.List
import SchemaGraph.Proofs.Store.Currency

/-! # An update of a node is undone

A node that got another key gets its old one back by a second update. That this succeeds follows
from what the first one did: the old keys and fingerprints of the node and its events are free
again. It leads every event back to what it was, in its place, and so all indices are as they were.
-/

namespace SchemaGraph

namespace Shelf

variable {ε : Type} [Entity ε] [LawfulEntity ε] {c : Catalog} {s : Shelf ε}
  {sourceKey sourceId targetId : String} {target back : ε} {r : Replacement ε}

omit [LawfulEntity ε] in
theorem Consistent.eq_of_entries {t : Shelf ε} (hs : s.Consistent) (ht : t.Consistent)
    (same : t.entries.entries = s.entries.entries) : t = s := by
  have sameEntries : t.entries = s.entries := OrderedMap.ext_entries same
  have sameHolders : t.holders = s.holders := hs.holders_eq ht fun key => by
    rw [get?, get?, sameEntries]
  cases s
  cases t
  cases sameEntries
  cases sameHolders
  rfl

/-- The replacement that puts the source back. -/
def Replacement.undo (r : Replacement ε) (sourceKey : String) : Replacement ε :=
  ⟨r.place, r.target, sourceKey, r.source⟩

theorem Consistent.replacement_undo (h : s.Consistent)
    (passed : s.replacement c sourceKey sourceId target = .ok r)
    (named : Entity.id target = some targetId) (stamping : Entity.stamped c back = .ok r.source) :
    (s.replace sourceKey r).replacement c r.key targetId back = .ok (r.undo sourceKey) := by
  obtain ⟨_, placed, found, _, free, sameType, taken⟩ := replacement_eq_ok_iff.mp passed
  obtain ⟨f, _, given⟩ := Entity.stamped_eq_ok_iff.mp (admitted_eq_ok_iff.mp taken).1
  have typeOfBack : Entity.typeName r.source = Entity.typeName back := by
    obtain ⟨_, _, same⟩ := Entity.stamped_eq_ok_iff.mp stamping
    rw [same, Entity.typeName_withFingerprint]
  have here : (s.replace sourceKey r).get? r.key = some r.target := by
    rw [get?_replace, if_pos rfl]
  refine replacement_eq_ok_iff.mpr ⟨?_, ?_, here, ?_, ?_, ?_, admitted_eq_ok_iff.mpr ⟨stamping, ?_⟩⟩
  · rw [← Entity.logicKey?_of_stamped stamping]
    exact h.keyed found
  · have listed := (OrderedMap.indexOf?_eq_some_iff found).mp placed
    rw [OrderedMap.indexOf?_eq_some_iff here, entries_replace placed found free,
      List.getElem?_map]
    change Option.map _ s.entries.entries[r.place]? = _
    rw [listed, Option.map_some, if_pos rfl]
  · change Entity.id r.target = some targetId
    rw [given, Entity.id_withFingerprint, named]
  · by_cases same : sourceKey = r.key
    · exact Or.inl same
    · refine Or.inr ((OrderedMap.get?_eq_none_iff _ _).mp ?_)
      exact (get?_replace s sourceKey sourceKey r).trans (by rw [if_neg same, if_pos rfl])
  · change Entity.typeName r.target = _
    rw [given, Entity.typeName_withFingerprint, ← sameType, typeOfBack]
  · -- before the replacement, nobody but the source carried its fingerprint
    intro fingerprint holder carries heldBy
    have after : (s.replace sourceKey r).Consistent := h.replace passed rfl rfl
    obtain ⟨e, held, carried⟩ := after.holds.mp heldBy
    rw [get?_replace] at held
    split at held
    · assumption
    · obtain ⟨different, before⟩ := Option.ite_none_left_eq_some.mp held
      exact absurd (h.fingerprint_unique before found carried carries) different

theorem Consistent.replace_undo (h : s.Consistent)
    (passed : s.replacement c sourceKey sourceId target = .ok r)
    (named : Entity.id target = some targetId) (stamping : Entity.stamped c back = .ok r.source) :
    (s.replace sourceKey r).replace r.key (r.undo sourceKey) = s := by
  have passedBack := h.replacement_undo passed named stamping
  obtain ⟨_, placed, found, _, free, _⟩ := replacement_eq_ok_iff.mp passed
  obtain ⟨_, placedBack, foundBack, _, freeBack, _⟩ := replacement_eq_ok_iff.mp passedBack
  have entries : ((s.replace sourceKey r).replace r.key (r.undo sourceKey)).entries.entries =
      s.entries.entries := by
    rw [entries_replace placedBack foundBack freeBack, entries_replace placed found free,
      List.map_map]
    refine (List.map_congr_left fun entry listed => ?_).trans (List.map_id _)
    have held := (s.mem_entries_iff entry.1 entry.2).mp listed
    simp only [Function.comp_apply, id_eq, Replacement.undo]
    by_cases isSource : entry.1 = sourceKey
    · rw [isSource, found, Option.some_inj] at held
      rw [if_pos isSource, if_pos rfl, held, ← isSource]
    · rw [if_neg isSource, if_neg]
      intro isTarget
      rcases free with same | absent
      · exact isSource (isTarget.trans same)
      · have notFound : s.get? r.key = none := (s.entries.get?_eq_none_iff r.key).mpr absent
        rw [isTarget, notFound] at held
        cases held
  exact h.eq_of_entries ((h.replace passed rfl rfl).replace passedBack rfl rfl) entries

end Shelf

namespace Store

variable {c : Catalog} {s s' : Store} {sourceKey targetKey sourceId targetId key : String}
  {source target stored : Node} {moves : List Move} {e : Event}

theorem stamped_of_fresh {n : Node} (fresh : Entity.Fresh c n) (f : Option String) :
    Entity.stamped c (Entity.withFingerprint n f) = .ok n := by
  refine Entity.stamped_eq_ok_iff.mpr ⟨Entity.fingerprint n, ?_, by cases n; rfl⟩
  rw [Entity.computeFingerprint_withFingerprint]
  exact fresh

/-! ## Leading an event back -/

/-- An event that is led to a target and back is what it was, up to its fingerprint. -/
theorem Led.eq_back {old new again : Event} {oldKey newKey : String}
    (led : Led sourceKey target old new) (back : Led targetKey source new again)
    (keyed : Entity.logicKey? target = some targetKey)
    (ofOld : Entity.logicKey? old = some oldKey) (ofNew : Entity.logicKey? new = some newKey)
    (literal : ∀ p ∈ [old.left, old.right], p.logicKey? = some sourceKey → p = .ofNode source)
    (untouched : targetKey ∉ old.endKeys) :
    ∃ f, again = Entity.withFingerprint old f := by
  rw [Event.mem_endKeys, not_or] at untouched
  refine ⟨_, eq_withFingerprint ?_ ?_ (back.membership.trans led.membership)
    (back.core.trans led.core)⟩
  -- an end at the source comes back as the source, and no other end is at the target
  · rw [back.left, led.leftKey?_eq keyed ofOld ofNew, led.left]
    by_cases atSource : old.leftKey? = some sourceKey
    · rw [if_pos atSource, if_pos rfl]
      exact (literal old.left (by simp) (Event.leftKey?_of_logicKey? ofOld ▸ atSource)).symm
    · rw [if_neg atSource, if_neg atSource, if_neg untouched.1]
  · rw [back.right, led.rightKey?_eq keyed ofOld ofNew, led.right]
    by_cases atSource : old.rightKey? = some sourceKey
    · rw [if_pos atSource, if_pos rfl]
      exact (literal old.right (by simp) (Event.rightKey?_of_logicKey? ofOld ▸ atSource)).symm
    · rw [if_neg atSource, if_neg atSource, if_neg untouched.2]

/-- A plan whose effect can be taken back: the events at the source name it as it is, none is at
    the target, and all carry their present fingerprints. -/
structure Undoable (c : Catalog) (s : Store) (sourceKey targetKey : String)
    (source target : Node) (moves : List Move) : Prop where
  consistent : s.Consistent
  fresh : s.events.All (Entity.Fresh c)
  ofSource : Entity.logicKey? source = some sourceKey
  keyed : Entity.logicKey? target = some targetKey
  literal : ∀ e ∈ s.events.values, ∀ p ∈ [e.left, e.right],
    p.logicKey? = some sourceKey → p = .ofNode source
  untouched : ∀ e ∈ s.events.values, targetKey ∉ e.endKeys
  planned : Planned c s.events sourceKey target (s.adjacency.eventsAt sourceKey) moves
  apart : s.RepointsApart sourceKey target

namespace Undoable

variable {m : Move}

theorem leads_back (u : Undoable c s sourceKey targetKey source target moves)
    (inside : m ∈ moves) :
    Entity.logicKey? (repoint targetKey source m.event) = some m.oldKey ∧
      Entity.stamped c (repoint targetKey source m.event) = .ok m.old := by
  have sound := u.planned.sound inside
  have listed := Shelf.mem_values_iff.mpr ⟨m.oldKey, sound.held⟩
  have ofOld := u.consistent.events.keyed sound.held
  have ofNew : Entity.logicKey? m.event = some m.key := by
    rw [Entity.logicKey?_of_stamped sound.stamping, sound.keyed]
  obtain ⟨f, same⟩ := (u.planned.led u.keyed inside).eq_back (led_repoint u.ofSource m.event)
    u.keyed ofOld ofNew (u.literal _ listed) (u.untouched _ listed)
  rw [same]
  refine ⟨by rw [Entity.logicKey?_withFingerprint, ofOld], Entity.stamped_eq_ok_iff.mpr ?_⟩
  refine ⟨Entity.fingerprint m.old, ?_, rfl⟩
  rw [Entity.computeFingerprint_withFingerprint]
  exact u.fresh sound.held

/-! ## The store in between -/

theorem mem_eventsAt_target (u : Undoable c s sourceKey targetKey source target moves)
    (key : String) :
    key ∈ (s.applyMoves sourceKey targetKey moves).adjacency.eventsAt targetKey ↔
      ∃ m ∈ moves, m.key = key := by
  rw [u.planned.mem_eventsAt_applyMoves u.consistent targetKey u.apart]
  constructor
  · rintro (⟨_, entry, listed, touches, _⟩ | ⟨_, moved⟩)
    · exact absurd touches (u.untouched _ (List.mem_map_of_mem listed))
    · exact moved
  · intro moved
    exact Or.inr ⟨rfl, moved⟩

theorem entries_after (u : Undoable c s sourceKey targetKey source target moves) :
    (s.applyMoves sourceKey targetKey moves).events.entries.entries =
      s.events.entries.entries.map
        (finalEntry c sourceKey target (s.adjacency.eventsAt sourceKey)) :=
  u.planned.entries_applyMoves u.consistent targetKey u.apart

theorem consistent_after (u : Undoable c s sourceKey targetKey source target moves) :
    (s.applyMoves sourceKey targetKey moves).Consistent :=
  u.consistent.applyMoves u.keyed u.planned u.apart

theorem finalEntry_of_move (u : Undoable c s sourceKey targetKey source target moves)
    (inside : m ∈ moves) :
    finalEntry c sourceKey target (s.adjacency.eventsAt sourceKey) (m.oldKey, m.old) =
      (m.key, m.event) := by
  rw [finalEntry, if_pos (u.planned.mem_moving inside), (u.planned.sound inside).movedEntry_eq]

theorem held_cases (u : Undoable c s sourceKey targetKey source target moves)
    (held : (s.applyMoves sourceKey targetKey moves).events.get? key = some e) :
    (∃ m ∈ moves, m.key = key ∧ m.event = e) ∨
      key ∉ s.adjacency.eventsAt sourceKey ∧ s.events.get? key = some e := by
  rw [← Shelf.mem_entries_iff, u.entries_after] at held
  obtain ⟨entry, listed, became⟩ := List.mem_map.mp held
  by_cases isMoving : entry.1 ∈ s.adjacency.eventsAt sourceKey
  · obtain ⟨m, inside, rfl, _⟩ := u.planned.move_of_entry listed isMoving
    rw [u.finalEntry_of_move inside] at became
    exact Or.inl ⟨m, inside, Prod.mk.inj became⟩
  · rw [finalEntry, if_neg isMoving] at became
    subst became
    exact Or.inr ⟨isMoving, (s.events.mem_entries_iff _ _).mp listed⟩

end Undoable

/-- The move that takes another one back. -/
def Move.undo (m : Move) : Move := ⟨m.place, m.key, m.event, m.oldKey, m.old⟩

namespace Undoable

variable {m : Move}

theorem sound_undo (u : Undoable c s sourceKey targetKey source target moves)
    (inside : m ∈ moves) :
    Move.Sound c (s.applyMoves sourceKey targetKey moves).events targetKey source
      ((s.applyMoves sourceKey targetKey moves).adjacency.eventsAt targetKey) m.undo := by
  have sound := u.planned.sound inside
  have listed : (m.key, m.event) ∈
      (s.applyMoves sourceKey targetKey moves).events.entries.entries := by
    rw [u.entries_after, ← u.finalEntry_of_move inside]
    exact List.mem_map_of_mem ((s.events.mem_entries_iff _ _).mpr sound.held)
  have held := (Shelf.mem_entries_iff ..).mp listed
  obtain ⟨keyed, stamping⟩ := u.leads_back inside
  refine ⟨?_, held, keyed, stamping, ?_, ?_⟩
  · refine (OrderedMap.indexOf?_eq_some_iff held).mpr ?_
    change (s.applyMoves sourceKey targetKey moves).events.entries.entries[m.place]? = _
    rw [u.entries_after, List.getElem?_map, sound.listed, Option.map_some,
      u.finalEntry_of_move inside]
  -- whoever has the old key or fingerprint by now has been moved, too
  · intro contained
    obtain ⟨e, stillHeld⟩ := (OrderedMap.contains_iff ..).mp contained
    rcases u.held_cases stillHeld with ⟨n, other, same, _⟩ | ⟨stays, _⟩
    · exact (u.mem_eventsAt_target _).mpr ⟨n, other, same⟩
    · exact absurd (u.planned.mem_moving inside) stays
  · intro fingerprint holder carries heldBy
    obtain ⟨e, atHolder, carried⟩ := u.consistent_after.events.holds.mp heldBy
    rcases u.held_cases atHolder with ⟨n, other, same, _⟩ | ⟨stays, before⟩
    · exact (u.mem_eventsAt_target _).mpr ⟨n, other, same⟩
    · have own := u.consistent.events.fingerprint_unique before sound.held carried carries
      exact absurd (own ▸ u.planned.mem_moving inside) stays

theorem touches_target_iff (u : Undoable c s sourceKey targetKey source target moves)
    {entry : String × Event} (listed : entry ∈ s.events.entries.entries) :
    targetKey ∈ (finalEntry c sourceKey target (s.adjacency.eventsAt sourceKey) entry).2.endKeys ↔
      sourceKey ∈ entry.2.endKeys := by
  have untouched := u.untouched _ (List.mem_map_of_mem listed)
  rw [u.planned.mem_endKeys_finalEntry u.consistent u.keyed listed]
  simp [untouched]

theorem move_of_touches (u : Undoable c s sourceKey targetKey source target moves)
    {entry : String × Event} (listed : entry ∈ s.events.entries.entries)
    (touches : sourceKey ∈ entry.2.endKeys) : ∃ m ∈ moves, (m.oldKey, m.old) = entry := by
  have isMoving := (touches_iff_moving u.consistent.adjacency listed).mp touches
  obtain ⟨m, inside, isEntry, _⟩ := u.planned.move_of_entry listed isMoving
  exact ⟨m, inside, isEntry⟩

/-- The moves back are apart, as the keys that they bring back were apart from the new ones. -/
theorem apart_after (u : Undoable c s sourceKey targetKey source target moves) :
    (s.applyMoves sourceKey targetKey moves).RepointsApart targetKey source := by
  have sameFilter : (s.events.entries.entries.filter fun entry => decide (targetKey ∈
      (finalEntry c sourceKey target (s.adjacency.eventsAt sourceKey) entry).2.endKeys)) =
        s.events.entries.entries.filter fun entry => decide (sourceKey ∈ entry.2.endKeys) :=
    List.filter_congr fun entry listed => decide_eq_decide.mpr (u.touches_target_iff listed)
  have distinct := (List.pairwise_map.mp s.events.entries.distinct).sublist
    (List.filter_sublist (p := fun entry => decide (sourceKey ∈ entry.2.endKeys)))
  rw [RepointsApart, u.entries_after, List.filter_map, List.pairwise_map]
  change (s.events.entries.entries.filter fun entry => decide (targetKey ∈
    (finalEntry c sourceKey target (s.adjacency.eventsAt sourceKey) entry).2.endKeys)).Pairwise _
  rw [sameFilter]
  refine (distinct.and u.apart).imp_of_mem ?_
  rintro one other first second ⟨different, _, newOne, newOther⟩
  obtain ⟨listed, touches⟩ := List.mem_filter.mp first
  obtain ⟨listedToo, touchesToo⟩ := List.mem_filter.mp second
  obtain ⟨m, ofOne, rfl⟩ := u.move_of_touches listed (of_decide_eq_true touches)
  obtain ⟨n, ofOther, rfl⟩ := u.move_of_touches listedToo (of_decide_eq_true touchesToo)
  rw [(u.planned.sound ofOne).keyed] at newOne
  rw [(u.planned.sound ofOther).keyed] at newOther
  simp only [u.finalEntry_of_move ofOne, u.finalEntry_of_move ofOther, (u.leads_back ofOne).1,
    (u.leads_back ofOther).1]
  exact ⟨fun same => different (Option.some_inj.mp same), newOther.symm, newOne.symm⟩

theorem exists_moves (u : Undoable c s sourceKey targetKey source target moves) :
    ∃ backs : List Move, backs.map Move.oldKey =
        ((s.applyMoves sourceKey targetKey moves).adjacency.eventsAt targetKey).members ∧
      (∀ m ∈ backs, ∃ n ∈ moves, m = n.undo) ∧
      backs.Pairwise fun m n => ∀ fingerprint, Entity.fingerprint m.event = some fingerprint →
        Entity.fingerprint n.event ≠ some fingerprint := by
  have distinct := ((s.applyMoves sourceKey targetKey moves).adjacency.eventsAt targetKey).distinct
  -- every key at the target was brought by a move, which is the one to take back
  have all : ((s.applyMoves sourceKey targetKey moves).adjacency.eventsAt targetKey).members ∈
      Set.range (List.map fun m : {m // m ∈ moves} => m.1.key) := by
    rw [Set.range_list_map]
    intro key listed
    obtain ⟨m, inside, same⟩ := (u.mem_eventsAt_target key).mp listed
    exact ⟨⟨m, inside⟩, same⟩
  obtain ⟨chosen, sameKeys⟩ := all
  rw [← sameKeys] at distinct ⊢
  refine ⟨chosen.map fun m => m.1.undo, by rw [List.map_map]; rfl, ?_, ?_⟩
  · intro m listed
    obtain ⟨n, _, rfl⟩ := List.mem_map.mp listed
    exact ⟨n.1, n.2, rfl⟩
  · rw [List.pairwise_map]
    refine (List.pairwise_map.mp distinct).imp ?_
    intro m n different fingerprint ofM ofN
    have own := u.consistent.events.fingerprint_unique (u.planned.sound m.2).held
      (u.planned.sound n.2).held ofM ofN
    exact different (congrArg Move.key
      (List.inj_on_of_nodup_map u.planned.distinct m.2 n.2 own))

theorem finalEntry_back (u : Undoable c s sourceKey targetKey source target moves)
    {entry : String × Event} (listed : entry ∈ s.events.entries.entries) :
    finalEntry c targetKey source
      ((s.applyMoves sourceKey targetKey moves).adjacency.eventsAt targetKey)
      (finalEntry c sourceKey target (s.adjacency.eventsAt sourceKey) entry) = entry := by
  by_cases isMoving : entry.1 ∈ s.adjacency.eventsAt sourceKey
  · obtain ⟨m, inside, rfl, _⟩ := u.planned.move_of_entry listed isMoving
    have atTarget := (u.mem_eventsAt_target m.key).mpr ⟨m, inside, rfl⟩
    rw [u.finalEntry_of_move inside, finalEntry, if_pos atTarget]
    exact (u.sound_undo inside).movedEntry_eq
  · have away : entry.1 ∉
        (s.applyMoves sourceKey targetKey moves).adjacency.eventsAt targetKey := by
      rw [u.mem_eventsAt_target]
      rintro ⟨m, inside, same⟩
      exact u.planned.key_ne_staying inside listed isMoving same
    have stays : finalEntry c sourceKey target (s.adjacency.eventsAt sourceKey) entry = entry := by
      rw [finalEntry, if_neg isMoving]
    rw [stays, finalEntry, if_neg away]

theorem exists_plan (u : Undoable c s sourceKey targetKey source target moves) :
    let t := s.applyMoves sourceKey targetKey moves
    ∃ backs, t.planMoves c targetKey source (t.adjacency.eventsAt targetKey) []
      (t.adjacency.eventsAt targetKey).members = .ok backs := by
  intro t
  obtain ⟨backs, sameKeys, areBacks, apart⟩ := u.exists_moves
  rw [← sameKeys]
  refine ⟨backs, planMoves_eq_ok ?_ (by simp) apart⟩
  intro m listed
  obtain ⟨n, inside, rfl⟩ := areBacks m listed
  exact u.sound_undo inside

end Undoable

/-- A store with the nodes, events, fingerprints and groups of another one in the same orders, and
    with the same events at each node. -/
structure Restored (s t : Store) : Prop where
  nodes : t.nodes = s.nodes
  events : t.events = s.events
  groups : t.groups = s.groups
  incident (node key : String) : key ∈ t.adjacency.eventsAt node ↔ key ∈ s.adjacency.eventsAt node

theorem Consistent.restored {t : Store} (h : s.Consistent) (h' : t.Consistent)
    (nodes : t.nodes = s.nodes) (events : t.events.entries.entries = s.events.entries.entries)
    (types : t.groups.keys = s.groups.keys) : Restored s t where
  nodes := nodes
  events := h.events.eq_of_entries h'.events events
  groups := OrderedMap.ext_get? types fun typeName =>
    h'.groups.get?_eq h.groups (by rw [events])
  incident node key := by rw [h'.adjacency, h.adjacency, events]

theorem Undoable.restored (u : Undoable c s sourceKey targetKey source target moves)
    {nodes : Shelf Node} (consistent : nodes.Consistent) {backs : List Move}
    (planned : Planned c (s.applyMoves sourceKey targetKey moves).events targetKey source
      ((s.applyMoves sourceKey targetKey moves).adjacency.eventsAt targetKey) backs) :
    Restored { s with nodes } (applyMoves { s.applyMoves sourceKey targetKey moves with nodes }
      targetKey sourceKey backs) := by
  have between := u.consistent_after.withNodes consistent
  have after := between.applyMoves u.ofSource planned u.apart_after
  refine (u.consistent.withNodes consistent).restored after ?_ ?_ ?_
  · rw [nodes_applyMoves]
  · rw [Planned.entries_applyMoves between sourceKey planned u.apart_after]
    change (s.applyMoves sourceKey targetKey moves).events.entries.entries.map _ = _
    rw [u.entries_after, List.map_map]
    exact (List.map_congr_left fun entry listed => u.finalEntry_back listed).trans (List.map_id _)
  · simp only [applyMoves, keys_groups_foldl_pullMove]

/-- An update that gives a node another key, at which no event was, is undone by the update back
    to the node as it was, under whatever fingerprint that one is given: it succeeds, and nodes
    and events are restored. For this the events at the node have to name it by its own type and
    identifier, get keys apart from each other, and carry their present fingerprints. -/
theorem updateNode_undone (h : s.Consistent) (fresh : s.Fresh c)
    (found : s.nodes.get? sourceKey = some source)
    (updated : s.updateNode c sourceKey sourceId target = (.ok stored, s'))
    (keyed : Entity.logicKey? target = some targetKey) (changed : targetKey ≠ sourceKey)
    (named : Entity.id target = some targetId)
    (untouched : ∀ e ∈ s.events.values, targetKey ∉ e.endKeys)
    (literal : ∀ e ∈ s.events.values, ∀ p ∈ [e.left, e.right],
      p.logicKey? = some sourceKey → p = .ofNode source)
    (repointsApart : s.RepointsApart sourceKey target) (f : Option String) :
    ∃ restored, s'.updateNode c targetKey targetId (Entity.withFingerprint source f) =
      (.ok source, restored) ∧ Restored s restored := by
  obtain ⟨r, passed, rfl, outcome⟩ := updateNode_eq_ok updated
  obtain ⟨ofTarget, _, isSource, _⟩ := Shelf.replacement_eq_ok_iff.mp passed
  obtain rfl : targetKey = r.key := Option.some_inj.mp (keyed.symm.trans ofTarget)
  obtain rfl : source = r.source := Option.some_inj.mp (found.symm.trans isSource)
  obtain ⟨same, _⟩ | ⟨_, moves, planned, rfl⟩ := outcome
  · exact absurd same changed
  have u : Undoable c { s with nodes := s.nodes.replace sourceKey r } sourceKey r.key r.source
      target moves := {
    consistent := h.withNodes (h.nodes.replace passed rfl rfl)
    fresh := fresh.events
    ofSource := h.nodes.keyed found
    keyed, literal, untouched, planned
    apart := repointsApart }
  have stamping := stamped_of_fresh (fresh.nodes found) f
  have passedBack := h.nodes.replacement_undo passed named stamping
  have nodesBack := h.nodes.replace_undo passed named stamping
  obtain ⟨backs, planning⟩ := u.exists_plan
  have back := u.restored h.nodes (planned_of_planMoves planning)
  have nodesBetween : (applyMoves { s with nodes := s.nodes.replace sourceKey r } sourceKey r.key
      moves).nodes = s.nodes.replace sourceKey r := nodes_applyMoves ..
  generalize applyMoves { s with nodes := s.nodes.replace sourceKey r } sourceKey r.key moves = t
    at planning back nodesBetween ⊢
  rw [← nodesBetween] at passedBack nodesBack
  have undone := updateNode_of_plan passedBack changed.symm planning
  rw [nodesBack] at undone
  exact ⟨_, undone, back⟩

theorem fresh_roads (ends : List (String × String)) : (roads ends).Fresh roadCatalog := by
  have start : Fresh roadCatalog (Store.empty.addNode roadCatalog (.named "Town" "a") false).2 :=
    Fresh.run (fresh_ofStamped roadCatalog).kept.empty (.addNode (.named "Town" "a") false)
  exact List.foldlRecOn ends _ start fun s fresh _ _ => Fresh.run fresh (.addEvent _ false)

/-- A town with a road to itself and one from elsewhere gets another name, and its old one back. -/
theorem town_named_back :
    let s := roads [("a", "a"), ("x", "y"), ("b", "a"), ("z", "c")]
    ∃ source stored s' restored, s.nodes.get? "Towna" = some source ∧
      s.updateNode roadCatalog "Towna" "a" (.named "Town" "d") = (.ok stored, s') ∧
      s'.updateNode roadCatalog "Townd" "d" (Entity.withFingerprint source none) =
        (.ok source, restored) ∧ Restored s restored := by
  intro s
  have isEnd : (s.nodes.get? "Towna").map Endpoint.ofNode = some (.named "Town" "a") := by
    decide +kernel
  obtain ⟨source, found, ofSource⟩ := Option.map_eq_some_iff.mp isEnd
  have succeeds : (s.updateNode roadCatalog "Towna" "a" (.named "Town" "d")).1.isOk = true := by
    decide +kernel
  obtain ⟨stored, s', updated⟩ := exists_of_isOk succeeds
  have keyed : Entity.logicKey? (Node.named "Town" "d") = some "Townd" := by decide +kernel
  have named : Entity.id (Node.named "Town" "d") = some "d" := rfl
  have untouched : ∀ e ∈ s.events.values, "Townd" ∉ e.endKeys := by decide +kernel
  have literal : ∀ e ∈ s.events.values, ∀ p ∈ [e.left, e.right],
      p.logicKey? = some "Towna" → p = .named "Town" "a" := by decide +kernel
  have apart : s.RepointsApart "Towna" (.named "Town" "d") := by decide +kernel
  rw [← ofSource] at literal
  obtain ⟨restored, undone, same⟩ := updateNode_undone (consistent_roads _) (fresh_roads _) found
    updated keyed (by decide) named untouched literal apart none
  exact ⟨source, stored, s', restored, found, updated, undone, same⟩

end Store

end SchemaGraph
