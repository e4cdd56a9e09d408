import Mathlib.Data.List.Perm.Subperm
import SchemaGraph.Proofs.Store.Planning

/-! # Moves on the shelf

A plan is carried out on the shelf of events by taking all moving events off and putting
them back from the first place on. When their new keys differ, each comes to stand where it
stood before; when two of them agree, the later event silently takes the earlier one's place
in the map. That is the only way in which an update of a node loses an event.
-/

namespace SchemaGraph

namespace Shelf

variable {ε : Type} [Entity ε]

theorem entries_foldl_remove (keys : List String) (s : Shelf ε) :
    (keys.foldl (fun s key => (s.remove key).2) s).entries.entries =
      s.entries.entries.filter fun entry => decide (entry.1 ∉ keys) := by
  induction keys generalizing s with
  | nil => simp
  | cons key rest ih =>
      rw [List.foldl_cons, ih, entries_remove]
      change (s.entries.entries.filter _).filter _ = _
      rw [List.filter_filter]
      refine List.filter_congr fun entry _ => ?_
      simp [Bool.and_comm]

theorem Consistent.foldl_remove {s : Shelf ε} (h : s.Consistent) (keys : List String) :
    (keys.foldl (fun s key => (s.remove key).2) s).Consistent := by
  induction keys generalizing s with
  | nil => exact h
  | cons key rest ih => exact ih (h.remove key)

end Shelf

namespace Store

variable {c : Catalog} {events : Shelf Event} {sourceKey : String} {target : Node}
  {moving : OrderedSet String} {moves : List Move}

/-- What an event under a key becomes by its move; a fallback stands for what the plan
    does not let happen. -/
def movedEntry (c : Catalog) (sourceKey : String) (target : Node) (entry : String × Event) :
    String × Event :=
  ((Entity.logicKey? (repoint sourceKey target entry.2)).getD "",
    (Entity.stamped c (repoint sourceKey target entry.2)).toOption.getD entry.2)

/-- What the entry of an event is once all moves are carried out. -/
def finalEntry (c : Catalog) (sourceKey : String) (target : Node) (moving : OrderedSet String)
    (entry : String × Event) : String × Event :=
  if entry.1 ∈ moving then movedEntry c sourceKey target entry else entry

def moveOf (c : Catalog) (sourceKey : String) (target : Node) (entry : (String × Event) × Nat) :
    Move where
  place := entry.2
  oldKey := entry.1.1
  old := entry.1.2
  key := (movedEntry c sourceKey target entry.1).1
  event := (movedEntry c sourceKey target entry.1).2

/-- The moves of all events under moving keys, in the order of the shelf. -/
def movesOnShelf (c : Catalog) (events : Shelf Event) (sourceKey : String) (target : Node)
    (moving : OrderedSet String) : List Move :=
  ((events.entries.entries.zipIdx 0).filter fun entry => decide (entry.1.1 ∈ moving)).map
    (moveOf c sourceKey target)

theorem Move.Sound.movedEntry_eq {m : Move} (sound : m.Sound c events sourceKey target moving) :
    movedEntry c sourceKey target (m.oldKey, m.old) = (m.key, m.event) := by
  simp [movedEntry, sound.keyed, sound.stamping, Except.toOption]

theorem Move.Sound.moveOf_eq {m : Move} (sound : m.Sound c events sourceKey target moving) :
    moveOf c sourceKey target ((m.oldKey, m.old), m.place) = m := by
  simp [moveOf, sound.movedEntry_eq]

theorem Move.Sound.listed {m : Move} (sound : m.Sound c events sourceKey target moving) :
    events.entries.entries[m.place]? = some (m.oldKey, m.old) :=
  (OrderedMap.indexOf?_eq_some_iff sound.held).mp sound.placed

theorem Planned.mem_moving (planned : Planned c events sourceKey target moving moves) {m : Move}
    (inside : m ∈ moves) : m.oldKey ∈ moving := by
  have listed : m.oldKey ∈ moves.map Move.oldKey := List.mem_map_of_mem inside
  rw [planned.oldKeys] at listed
  exact OrderedSet.mem_def.mpr (List.mem_filter.mp listed).1

theorem Planned.distinct (planned : Planned c events sourceKey target moving moves) :
    (moves.map Move.oldKey).Nodup :=
  planned.oldKeys ▸ moving.distinct.filter _

theorem Planned.exists_move (planned : Planned c events sourceKey target moving moves)
    {key : String} {e : Event} (held : events.get? key = some e) (isMoving : key ∈ moving) :
    ∃ m ∈ moves, m.oldKey = key ∧ m.old = e := by
  have contained : events.contains key = true :=
    (events.entries.contains_iff key).mpr ⟨e, held⟩
  have listed : key ∈ moves.map Move.oldKey := by
    rw [planned.oldKeys]
    exact List.mem_filter.mpr ⟨isMoving, contained⟩
  obtain ⟨m, inside, rfl⟩ := List.mem_map.mp listed
  exact ⟨m, inside, rfl, Option.some_inj.mp ((planned.sound inside).held.symm.trans held)⟩

theorem Planned.move_of_entry (planned : Planned c events sourceKey target moving moves)
    {entry : String × Event} (inside : entry ∈ events.entries.entries)
    (isMoving : entry.1 ∈ moving) : ∃ m ∈ moves, (m.oldKey, m.old) = entry ∧
      movedEntry c sourceKey target entry = (m.key, m.event) := by
  obtain ⟨m, listed, ofKey, ofEvent⟩ :=
    planned.exists_move ((events.mem_entries_iff _ _).mp inside) isMoving
  have isEntry : (m.oldKey, m.old) = entry := Prod.ext ofKey ofEvent
  exact ⟨m, listed, isEntry, isEntry ▸ (planned.sound listed).movedEntry_eq⟩

theorem Planned.mem_movesOnShelf (planned : Planned c events sourceKey target moving moves)
    (m : Move) : m ∈ movesOnShelf c events sourceKey target moving ↔ m ∈ moves := by
  simp only [movesOnShelf, List.mem_map, List.mem_filter, decide_eq_true_eq]
  constructor
  · rintro ⟨⟨⟨key, e⟩, place⟩, ⟨listed, isMoving⟩, rfl⟩
    have listed := List.mem_zipIdx_iff_getElem?.mp listed
    have held : events.get? key = some e :=
      (events.mem_entries_iff key e).mp (List.mem_of_getElem? listed)
    obtain ⟨m, inside, rfl, rfl⟩ := planned.exists_move held isMoving
    have placed := (OrderedMap.indexOf?_eq_some_iff held).mpr listed
    obtain rfl := Option.some_inj.mp ((planned.sound inside).placed.symm.trans placed)
    rwa [(planned.sound inside).moveOf_eq]
  · intro inside
    have sound := planned.sound inside
    exact ⟨((m.oldKey, m.old), m.place),
      ⟨List.mem_zipIdx_iff_getElem?.mpr sound.listed, planned.mem_moving inside⟩,
      sound.moveOf_eq⟩

theorem rising_movesOnShelf :
    (movesOnShelf c events sourceKey target moving).Pairwise fun a b => a.place < b.place := by
  rw [movesOnShelf, List.pairwise_map]
  exact (pairwise_zipIdx events.entries.entries 0).sublist List.filter_sublist

theorem old_movesOnShelf (c : Catalog) (events : Shelf Event) (sourceKey : String)
    (target : Node) (moving : OrderedSet String) :
    (movesOnShelf c events sourceKey target moving).map (fun m => (m.oldKey, m.old)) =
      events.entries.entries.filter fun entry => decide (entry.1 ∈ moving) := by
  have listed := List.zipIdx_map_fst 0 events.entries.entries
  rw [movesOnShelf, List.map_map]
  generalize events.entries.entries.zipIdx 0 = places at listed ⊢
  rw [← listed, List.filter_map]
  rfl

theorem Planned.perm_movesOnShelf (planned : Planned c events sourceKey target moving moves) :
    moves.Perm (movesOnShelf c events sourceKey target moving) := by
  refine (List.perm_ext_iff_of_nodup (List.Nodup.of_map _ planned.distinct) ?_).mpr
    fun m => (planned.mem_movesOnShelf m).symm
  exact rising_movesOnShelf.imp fun below same => absurd (same ▸ below) (Nat.lt_irrefl _)

/-- In the order of their places, the moves are read off the shelf. -/
theorem Planned.sorted (planned : Planned c events sourceKey target moving moves) :
    (moves.mergeSort fun a b => decide (a.place ≤ b.place)) =
      movesOnShelf c events sourceKey target moving := by
  have sorted : (moves.mergeSort fun a b => decide (a.place ≤ b.place)).Pairwise
      fun a b => decide (a.place ≤ b.place) = true := by
    apply List.pairwise_mergeSort
    · simp only [decide_eq_true_eq]
      omega
    · simp only [Bool.or_eq_true, decide_eq_true_eq]
      omega
  simp only [decide_eq_true_eq] at sorted
  refine List.Perm.eq_of_pairwise ?_ sorted (rising_movesOnShelf.imp Nat.le_of_lt)
    ((List.mergeSort_perm moves _).trans planned.perm_movesOnShelf)
  -- one place has one move
  intro a b inside other below above
  have insideMoves : a ∈ moves := List.mem_mergeSort.mp inside
  have otherMoves : b ∈ moves := (planned.mem_movesOnShelf b).mp other
  have first := (planned.sound insideMoves).listed
  rw [Nat.le_antisymm below above, (planned.sound otherMoves).listed, Option.some_inj,
    Prod.mk.injEq] at first
  exact List.inj_on_of_nodup_map planned.distinct insideMoves otherMoves first.1.symm

/-! ## Off the shelf and back -/

/-- The shelf after moves in the order of their places. -/
def moved (events : Shelf Event) (moves : List Move) : Shelf Event :=
  moves.foldl (fun events m => events.putAt m.place m.key m.event)
    ((moves.reverse.map Move.oldKey).foldl (fun events key => (events.remove key).2) events)

theorem events_foldl_pullMove (sourceKey : String) (moves : List Move) (s : Store) :
    (moves.foldl (pullMove sourceKey) s).events =
      (moves.map Move.oldKey).foldl (fun events key => (events.remove key).2) s.events := by
  induction moves generalizing s with
  | nil => rfl
  | cons m rest ih => exact ih _

theorem nodes_foldl_pullMove (sourceKey : String) (moves : List Move) (s : Store) :
    (moves.foldl (pullMove sourceKey) s).nodes = s.nodes := by
  induction moves generalizing s with
  | nil => rfl
  | cons m rest ih => exact ih _

theorem nodes_applyMoves (s : Store) (sourceKey targetKey : String) (moves : List Move) :
    (s.applyMoves sourceKey targetKey moves).nodes = s.nodes := by
  simp only [applyMoves, nodes_foldl_pullMove]

theorem Planned.events_applyMoves {s : Store} (targetKey : String)
    (planned : Planned c s.events sourceKey target moving moves) :
    (s.applyMoves sourceKey targetKey moves).events =
      moved s.events (movesOnShelf c s.events sourceKey target moving) := by
  rw [applyMoves, planned.sorted, moved]
  simp only [events_foldl_pullMove]

theorem Planned.entries_pulled (planned : Planned c events sourceKey target moving moves) :
    (((movesOnShelf c events sourceKey target moving).reverse.map Move.oldKey).foldl
      (fun events key => (events.remove key).2) events).entries.entries =
      events.entries.entries.filter fun entry => !decide (entry.1 ∈ moving) := by
  rw [Shelf.entries_foldl_remove]
  refine List.filter_congr fun entry inside => ?_
  rw [← decide_not]
  refine decide_eq_decide.mpr (not_congr ?_)
  simp only [List.mem_map, List.mem_reverse, planned.mem_movesOnShelf]
  constructor
  · rintro ⟨m, listed, ofEntry⟩
    exact ofEntry ▸ planned.mem_moving listed
  · intro isMoving
    obtain ⟨m, listed, rfl, _⟩ := planned.move_of_entry inside isMoving
    exact ⟨m, listed, rfl⟩

theorem Planned.key_ne_staying (planned : Planned c events sourceKey target moving moves)
    {m : Move} (inside : m ∈ moves) {entry : String × Event}
    (listed : entry ∈ events.entries.entries) (stays : entry.1 ∉ moving) : m.key ≠ entry.1 := by
  rintro same
  have held : events.contains entry.1 = true :=
    (events.entries.contains_iff _).mpr ⟨_, (events.mem_entries_iff _ _).mp listed⟩
  exact stays (same ▸ (planned.sound inside).free (same ▸ held))

theorem Planned.distinct_moved (planned : Planned c events sourceKey target moving moves)
    (different : (moves.map Move.key).Nodup) :
    ((events.entries.entries.map (finalEntry c sourceKey target moving)).map Prod.fst).Nodup := by
  have distinct := events.entries.distinct
  have whole : events.entries.entries.Nodup := List.Nodup.of_map _ distinct
  rw [List.map_map]
  refine whole.map_on ?_
  intro one oneInside other otherInside same
  simp only [Function.comp_apply, finalEntry] at same
  by_cases oneMoves : one.1 ∈ moving <;> by_cases otherMoves : other.1 ∈ moving <;>
    simp only [oneMoves, otherMoves, if_true, if_false] at same
  · obtain ⟨m, inside, rfl, newOne⟩ := planned.move_of_entry oneInside oneMoves
    obtain ⟨n, insideToo, rfl, newOther⟩ := planned.move_of_entry otherInside otherMoves
    rw [newOne, newOther] at same
    rw [List.inj_on_of_nodup_map different inside insideToo same]
  · obtain ⟨m, inside, rfl, newOne⟩ := planned.move_of_entry oneInside oneMoves
    rw [newOne] at same
    exact absurd same (planned.key_ne_staying inside otherInside otherMoves)
  · obtain ⟨m, inside, rfl, newOther⟩ := planned.move_of_entry otherInside otherMoves
    rw [newOther] at same
    exact absurd same.symm (planned.key_ne_staying inside oneInside oneMoves)
  · exact List.inj_on_of_nodup_map distinct oneInside otherInside same

theorem entries_foldl_putAt (moves : List Move) (events : Shelf Event) :
    (moves.foldl (fun events m => events.putAt m.place m.key m.event) events).entries =
      moves.foldl (fun entries m => entries.insertAt m.place m.key m.event) events.entries := by
  induction moves generalizing events with
  | nil => rfl
  | cons m rest ih => exact ih _

/-- With different new keys, each event stands where it stood, under its new key. -/
theorem Planned.entries_moved (planned : Planned c events sourceKey target moving moves)
    (different : (moves.map Move.key).Nodup) :
    (moved events (movesOnShelf c events sourceKey target moving)).entries.entries =
      events.entries.entries.map (finalEntry c sourceKey target moving) := by
  have pulled := planned.entries_pulled
  rw [moved, entries_foldl_putAt]
  generalize List.foldl (fun (events : Shelf Event) key => (events.remove key).2) events _ =
    rest at pulled ⊢
  have isFinal : finalEntry c sourceKey target moving = fun entry =>
      if entry.1 ∈ moving then movedEntry c sourceKey target entry else entry := rfl
  have distinct := planned.distinct_moved different
  rw [isFinal] at distinct ⊢
  have putBack := OrderedMap.entries_putBack (fun entry => decide (entry.1 ∈ moving))
    (movedEntry c sourceKey target) events.entries.entries [] rest.entries pulled
    (by simpa using distinct)
  rw [movesOnShelf, List.foldl_map]
  simpa [moveOf] using putBack

theorem mem_entries_of_moved {moves : List Move} {m : OrderedMap String Event}
    {entry : String × Event} (held : entry ∈ (moves.foldl (fun entries m =>
      entries.insertAt m.place m.key m.event) m).entries) :
    (∃ n ∈ moves, (n.key, n.event) = entry) ∨ entry ∈ m.entries := by
  induction moves generalizing m with
  | nil => exact Or.inr held
  | cons first rest ih =>
      rcases ih held with ⟨n, later, same⟩ | before
      · exact Or.inl ⟨n, List.mem_cons_of_mem _ later, same⟩
      · rcases OrderedMap.mem_entries_insertAt.mp before with same | ⟨inside, _⟩
        · exact Or.inl ⟨first, List.mem_cons_self, same.symm⟩
        · exact Or.inr inside

/-- Whatever is held after the moves was held before or has been brought by one of them. -/
theorem Planned.held_cases {s : Store} {targetKey : String}
    (planned : Planned c s.events sourceKey target moving moves) {key : String} {e : Event}
    (held : (s.applyMoves sourceKey targetKey moves).events.get? key = some e) :
    (∃ m ∈ moves, m.key = key ∧ m.event = e) ∨ s.events.get? key = some e := by
  have pulled := planned.entries_pulled
  rw [planned.events_applyMoves, moved, ← Shelf.mem_entries_iff, entries_foldl_putAt] at held
  rcases mem_entries_of_moved held with ⟨m, listed, same⟩ | before
  · exact Or.inl ⟨m, (planned.mem_movesOnShelf m).mp listed, Prod.mk.inj same⟩
  · rw [pulled] at before
    exact Or.inr ((Shelf.mem_entries_iff ..).mp (List.mem_filter.mp before).1)

theorem Planned.keyed_applyMoves {s : Store} {targetKey : String}
    (keyed : s.events.Keyed) (planned : Planned c s.events sourceKey target moving moves) :
    (s.applyMoves sourceKey targetKey moves).events.Keyed := by
  intro key e held
  rcases planned.held_cases held with ⟨m, inside, rfl, rfl⟩ | before
  · have sound := planned.sound inside
    rw [Entity.logicKey?_of_stamped sound.stamping, sound.keyed]
  · exact keyed before

theorem mem_keys_moved (moves : List Move) (m : OrderedMap String Event) (key : String) :
    key ∈ (moves.foldl (fun entries m => entries.insertAt m.place m.key m.event) m).keys ↔
      key ∈ m.keys ∨ key ∈ moves.map Move.key := by
  induction moves generalizing m with
  | nil => simp
  | cons first rest ih =>
      rw [List.foldl_cons, ih, OrderedMap.mem_keys_insertAt, List.map_cons, List.mem_cons]
      tauto

/-- The moves keep the number of events exactly when their new keys differ. -/
theorem Planned.size_moved_iff (planned : Planned c events sourceKey target moving moves) :
    (moved events (movesOnShelf c events sourceKey target moving)).entries.size =
      events.entries.size ↔ (moves.map Move.key).Nodup := by
  constructor
  · intro sameSize
    -- a key that two moves share would leave fewer keys than there were entries
    have pulled := planned.entries_pulled
    rw [moved, entries_foldl_putAt] at sameSize
    generalize List.foldl (fun (events : Shelf Event) key => (events.remove key).2) events _ =
      rest at pulled sameSize
    have keys := mem_keys_moved (movesOnShelf c events sourceKey target moving) rest.entries
    generalize List.foldl (fun (entries : OrderedMap String Event) (m : Move) =>
      entries.insertAt m.place m.key m.event) rest.entries _ = final at keys sameSize
    have counts : (rest.entries.keys ++
        (movesOnShelf c events sourceKey target moving).map Move.key).length =
          final.keys.length := by
      have split := List.length_eq_length_filter_add (l := events.entries.entries)
        fun entry => decide (entry.1 ∈ moving)
      have moving := congrArg List.length (old_movesOnShelf c events sourceKey target moving)
      simp only [OrderedMap.size, OrderedMap.keys, List.length_map, List.length_append, pulled]
        at sameSize moving ⊢
      omega
    have subset : final.keys ⊆ rest.entries.keys ++
        (movesOnShelf c events sourceKey target moving).map Move.key := fun key inside =>
      List.mem_append.mpr ((keys key).mp inside)
    have allThere := (List.subperm_of_subset final.distinct subset).perm_of_length_le
      (Nat.le_of_eq counts)
    have different := (List.nodup_append.mp (allThere.nodup_iff.mp final.distinct)).2.1
    exact (planned.perm_movesOnShelf.map Move.key).nodup_iff.mpr different
  · intro different
    simp [OrderedMap.size, planned.entries_moved different]

/-! ## Which updates keep all events -/

/-- The keys that the events at a node get when they are led to another one. -/
def newKeys (s : Store) (sourceKey : String) (target : Node) : List (Option String) :=
  (s.incidentEvents sourceKey).map fun e => Entity.logicKey? (repoint sourceKey target e)

/-- There are as many events as before, and each event that was at the node is held in its
    new form under its own key. -/
structure KeepsEvents (c : Catalog) (sourceKey : String) (target : Node) (s s' : Store) :
    Prop where
  size : s'.events.entries.size = s.events.entries.size
  held {e : Event} : e ∈ s.incidentEvents sourceKey → ∃ key new,
    Entity.stamped c (repoint sourceKey target e) = .ok new ∧
    Entity.logicKey? new = some key ∧ s'.events.get? key = some new

theorem filterMap_filter_of_isSome {α β : Type} (f : α → Option β) (l : List α) :
    (l.filter fun a => (f a).isSome).filterMap f = l.filterMap f := by
  rw [List.filterMap_filter]
  refine List.filterMap_congr fun a _ => ?_
  cases f a <;> simp

theorem Planned.old_eq (planned : Planned c events sourceKey target moving moves) :
    moves.map Move.old = moving.members.filterMap events.get? := by
  have held (m : Move) (inside : m ∈ moves) : events.get? m.oldKey = some m.old :=
    (planned.sound inside).held
  have contained (key : String) : events.contains key = (events.get? key).isSome := rfl
  rw [← filterMap_filter_of_isSome]
  simp only [← contained]
  rw [← planned.oldKeys, List.filterMap_map, ← List.filterMap_eq_map]
  exact List.filterMap_congr fun m inside => (held m inside).symm

theorem Planned.newKeys_eq {s : Store}
    (planned : Planned c s.events sourceKey target (s.adjacency.eventsAt sourceKey) moves) :
    s.newKeys sourceKey target = (moves.map Move.key).map some := by
  rw [newKeys, incidentEvents, ← planned.old_eq, List.map_map, List.map_map]
  exact List.map_congr_left fun m inside => (planned.sound inside).keyed

theorem Planned.held_moved (planned : Planned c events sourceKey target moving moves)
    (different : (moves.map Move.key).Nodup) {m : Move} (inside : m ∈ moves) :
    (moved events (movesOnShelf c events sourceKey target moving)).get? m.key =
      some m.event := by
  have sound := planned.sound inside
  rw [← Shelf.mem_entries_iff, planned.entries_moved different, List.mem_map]
  refine ⟨_, (events.mem_entries_iff _ _).mpr sound.held, ?_⟩
  rw [finalEntry, if_pos (planned.mem_moving inside), sound.movedEntry_eq]

theorem keepsEvents_of_planned {s : Store} {r : Shelf.Replacement Node}
    (planned : Planned c s.events sourceKey target (s.adjacency.eventsAt sourceKey) moves)
    (different : (moves.map Move.key).Nodup) :
    KeepsEvents c sourceKey target s (applyMoves { s with nodes := s.nodes.replace sourceKey r }
      sourceKey r.key moves) := by
  have applied := Planned.events_applyMoves
    (s := { s with nodes := s.nodes.replace sourceKey r }) r.key planned
  refine ⟨?_, fun {e} incident => ?_⟩
  · rw [applied]
    exact planned.size_moved_iff.mpr different
  · rw [incidentEvents, ← planned.old_eq] at incident
    obtain ⟨m, inside, rfl⟩ := List.mem_map.mp incident
    have sound := planned.sound inside
    refine ⟨m.key, m.event, sound.stamping, ?_, ?_⟩
    · rw [Entity.logicKey?_of_stamped sound.stamping, sound.keyed]
    · rw [applied]
      exact planned.held_moved different inside

theorem size_updateNode_iff {s s' : Store} {sourceId : String} {stored : Node}
    (updated : s.updateNode c sourceKey sourceId target = (.ok stored, s'))
    (changed : Entity.logicKey? target ≠ some sourceKey) :
    s'.events.entries.size = s.events.entries.size ↔ (s.newKeys sourceKey target).Nodup := by
  obtain ⟨r, passed, -, ⟨same, rfl⟩ | ⟨_, moves, planned, rfl⟩⟩ := updateNode_eq_ok updated
  · obtain ⟨keyed, _⟩ := Shelf.replacement_eq_ok_iff.mp passed
    exact absurd (same ▸ keyed) changed
  · have applied := Planned.events_applyMoves
      (s := { s with nodes := s.nodes.replace sourceKey r }) r.key planned
    rw [planned.newKeys_eq, List.nodup_map_iff fun _ _ => Option.some_inj.mp, applied]
    exact planned.size_moved_iff

/-- An update of a node that fails leaves the store alone. One that succeeds keeps all
    events exactly when it gives different keys to the events at the node. -/
theorem updateNode_keepsEvents_iff (c : Catalog) (s : Store) (sourceKey sourceId : String)
    (target : Node) :
    match s.updateNode c sourceKey sourceId target with
    | (.error _, s') => s' = s
    | (.ok _, s') =>
        if Entity.logicKey? target = some sourceKey then s'.events = s.events
        else KeepsEvents c sourceKey target s s' ↔ (s.newKeys sourceKey target).Nodup := by
  split
  · rename_i failed
    exact updateNode_eq_error failed
  · rename_i stored s' updated
    obtain ⟨r, passed, -, outcome⟩ := updateNode_eq_ok updated
    obtain ⟨keyed, _⟩ := Shelf.replacement_eq_ok_iff.mp passed
    split
    · rename_i unchanged
      rcases outcome with ⟨_, rfl⟩ | ⟨changed, _⟩
      · rfl
      · exact absurd (Option.some_inj.mp (keyed.symm.trans unchanged)) changed
    · rename_i changed
      constructor
      · intro keeps
        exact (size_updateNode_iff updated changed).mp keeps.size
      · intro different
        rcases outcome with ⟨same, _⟩ | ⟨_, moves, planned, rfl⟩
        · exact absurd (same ▸ keyed) changed
        · rw [planned.newKeys_eq, List.nodup_map_iff fun _ _ => Option.some_inj.mp] at different
          exact keepsEvents_of_planned planned different

/-- Towns and the roads between them have unique properties, but none here is known. -/
def roadCatalog : Catalog :=
  let towns := (Catalog.empty.putNode { name := "Town", uniqueIndex := ["mayor"] } false).toOption
  let road : EventDefinition := { key := ⟨"Road", "Town", "Town"⟩, uniqueIndex := ["toll"] }
  ((towns.getD .empty).putEvent road false).toOption.getD .empty

/-- The town `a`, and roads between towns whether they are there or not. -/
def roads (ends : List (String × String)) : Store :=
  ends.foldl
    (fun s (left, right) => (s.addEvent roadCatalog
      (.between "Road" "r" (.named "Town" left) (.named "Town" right)) false).2)
    (Store.empty.addNode roadCatalog (.named "Town" "a") false).2

theorem consistent_roads (ends : List (String × String)) : (roads ends).Consistent := by
  have start := Consistent.empty.addNode roadCatalog (.named "Town" "a") false
  exact List.foldlRecOn ends _ start fun s consistent _ _ => consistent.addEvent roadCatalog _ false

theorem exists_of_isOk {α : Type} {answered : Answered α} (succeeds : answered.1.isOk = true) :
    ∃ a s, answered = (.ok a, s) := by
  rcases answered with ⟨_ | a, s⟩
  · cases succeeds
  · exact ⟨a, s, rfl⟩

/-- When a town is called like the one at the other end of two opposite roads, the roads
    become one: the update succeeds, and one of three roads is lost. -/
theorem opposite_events_merge :
    let s := roads [("a", "b"), ("b", "a"), ("x", "y")]
    ∃ stored s', s.updateNode roadCatalog "Towna" "a" (.named "Town" "b") = (.ok stored, s') ∧
      s.events.entries.keys = ["RoadaTownbTownr", "RoadbTownaTownr", "RoadxTownyTownr"] ∧
      s'.events.entries.size ≠ 3 := by
  intro s
  have succeeds : (s.updateNode roadCatalog "Towna" "a" (.named "Town" "b")).1.isOk = true := by
    decide +kernel
  obtain ⟨stored, s', updated⟩ := exists_of_isOk succeeds
  refine ⟨stored, s', updated, by decide +kernel, fun three => ?_⟩
  have before : s.events.entries.size = 3 := by decide +kernel
  have same := (size_updateNode_iff updated (by decide +kernel)).mp (three.trans before.symm)
  exact absurd same (by decide +kernel)

end Store

end SchemaGraph
