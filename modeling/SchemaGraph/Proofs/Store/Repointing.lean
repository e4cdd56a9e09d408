import Mathlib.Data.List.Pairwise
import SchemaGraph.Proofs.Store.Refiling

/-! # Moves in the adjacency

While the events at a node move, the adjacency knows each of them under its new key as soon
as it is off the shelf. It stays in step with the shelf when the moves are apart: no new key
is another one's new or present key.
-/

namespace SchemaGraph

namespace Adjacency

theorem eventsAt_insert (a : Adjacency) (node other : String) (events : OrderedSet String) :
    eventsAt (a.insert node events) other = if other = node then events else a.eventsAt other := by
  rw [eventsAt, SortedMap.get?_insert]
  split <;> rfl

theorem contains_of_mem_eventsAt {a : Adjacency} {node key : String}
    (listed : key ∈ a.eventsAt node) : a.contains node = true := by
  rw [SortedMap.contains, Option.isSome_iff_exists]
  cases found : a.get? node with
  | some events => exact ⟨events, rfl⟩
  | none => simp [eventsAt, found, OrderedSet.mem_def, OrderedSet.empty] at listed

theorem mem_eventsAt_relink {a : Adjacency} {node : String} (held : a.contains node = true)
    (old new other key : String) : key ∈ (a.relink node old new).eventsAt other ↔
      key ∈ a.eventsAt other ∧ (other = node → key ≠ old) ∨ other = node ∧ key = new := by
  obtain ⟨events, found⟩ := Option.isSome_iff_exists.mp held
  by_cases same : other = node
  · simp [relink, found, eventsAt, same]
  · simp [relink, found, eventsAt, same]

theorem contains_relink {a : Adjacency} {node other old new : String}
    (held : a.contains other = true) : (a.relink node old new).contains other = true := by
  rw [relink]
  split
  · exact held
  · rw [SortedMap.contains, SortedMap.get?_insert]
    split
    · rfl
    · exact held

theorem mem_eventsAt_foldl_relink {nodes : List String} {a : Adjacency}
    (held : ∀ node ∈ nodes, a.contains node = true) (old new other key : String) :
    key ∈ (nodes.foldl (fun a node => a.relink node old new) a).eventsAt other ↔
      key ∈ a.eventsAt other ∧ (other ∈ nodes → key ≠ old) ∨ other ∈ nodes ∧ key = new := by
  induction nodes generalizing a with
  | nil => simp
  | cons node rest ih =>
      have heldRest : ∀ other ∈ rest, (a.relink node old new).contains other = true :=
        fun other later => contains_relink (held other (List.mem_cons_of_mem _ later))
      rw [List.foldl_cons, ih heldRest, mem_eventsAt_relink (held node List.mem_cons_self),
        List.mem_cons]
      tauto

end Adjacency

namespace Store

variable {c : Catalog} {s : Store} {sourceKey : String} {target : Node}
  {moving : OrderedSet String} {moves : List Move} {events : Shelf Event}

/-! ## Moves that are apart -/

/-- No event at the node gets the new or the present key of another one. -/
def RepointsApart (s : Store) (sourceKey : String) (target : Node) : Prop :=
  (s.events.entries.entries.filter fun entry => decide (sourceKey ∈ entry.2.endKeys)).Pairwise
    fun one other =>
      let newOne := Entity.logicKey? (repoint sourceKey target one.2)
      let newOther := Entity.logicKey? (repoint sourceKey target other.2)
      newOne ≠ newOther ∧ newOne ≠ some other.1 ∧ newOther ≠ some one.1

instance (s : Store) (sourceKey : String) (target : Node) :
    Decidable (s.RepointsApart sourceKey target) := by
  unfold RepointsApart
  infer_instance

/-- Moves of different events to different keys, neither of which is in use by the other. -/
structure Move.Apart (m n : Move) : Prop where
  old : m.oldKey ≠ n.oldKey
  new : m.key ≠ n.key
  left : m.key ≠ n.oldKey
  right : n.key ≠ m.oldKey

theorem Move.Apart.symm {m n : Move} (h : m.Apart n) : n.Apart m :=
  ⟨h.old.symm, h.new.symm, h.right, h.left⟩

theorem Move.Apart.before {m n : Move} (h : m.Apart n) : m.Before n :=
  ⟨h.old, h.new, h.left⟩

theorem Move.Apart.inOrder {m n : Move} (h : m.Apart n) : m.InOrder n :=
  fun _ => h.right

instance : Std.Symm Move.Apart := ⟨fun _ _ => Move.Apart.symm⟩

theorem touches_iff_moving (adjacency : s.adjacency.Mirrors s.events.entries.entries)
    {entry : String × Event} (inside : entry ∈ s.events.entries.entries) :
    sourceKey ∈ entry.2.endKeys ↔ entry.1 ∈ s.adjacency.eventsAt sourceKey := by
  rw [adjacency]
  constructor
  · intro touches
    exact ⟨entry.2, inside, touches⟩
  · rintro ⟨e, listed, touches⟩
    rwa [Entries.value_unique s.events.entries.distinct inside listed]

theorem Planned.apart_moves (h : s.Consistent)
    (planned : Planned c s.events sourceKey target (s.adjacency.eventsAt sourceKey) moves)
    (repointsApart : s.RepointsApart sourceKey target) :
    (movesOnShelf c s.events sourceKey target
      (s.adjacency.eventsAt sourceKey)).Pairwise Move.Apart := by
  have sameFilter : (s.events.entries.entries.filter fun entry =>
      decide (sourceKey ∈ entry.2.endKeys)) = s.events.entries.entries.filter fun entry =>
        decide (entry.1 ∈ s.adjacency.eventsAt sourceKey) :=
    List.filter_congr fun entry inside =>
      decide_eq_decide.mpr (touches_iff_moving h.adjacency inside)
  rw [RepointsApart, sameFilter, ← old_movesOnShelf c s.events sourceKey target,
    List.pairwise_map] at repointsApart
  have oldKeys := planned.distinct
  rw [(planned.perm_movesOnShelf.map Move.oldKey).nodup_iff, List.Nodup,
    List.pairwise_map] at oldKeys
  refine (oldKeys.and repointsApart).imp_of_mem ?_
  rintro m n inside later ⟨oldApart, apart⟩
  have ofM := (planned.sound ((planned.mem_movesOnShelf m).mp inside)).keyed
  have ofN := (planned.sound ((planned.mem_movesOnShelf n).mp later)).keyed
  simp only [ofM, ofN, ne_eq, Option.some_inj] at apart
  exact ⟨oldApart, apart.1, apart.2.1, apart.2.2⟩

/-! ## One move after the other -/

/-- The adjacency between two moves. It mirrors the entries under the keys that these have by
    then, but for the node that is left. -/
structure Midway (sourceKey : String) (s : Store) (entries : List (String × Event)) : Prop where
  distinct : (entries.map Prod.fst).Nodup
  adjacency (node key : String) : key ∈ s.adjacency.eventsAt node ↔
    node ≠ sourceKey ∧ ∃ e, (key, e) ∈ entries ∧ node ∈ e.endKeys

theorem Midway.pullMove {entries : List (String × Event)} (h : Midway sourceKey s entries)
    {m : Move} (inside : (m.oldKey, m.old) ∈ entries)
    (fresh : m.key ∈ entries.map Prod.fst → m.key = m.oldKey) :
    Midway sourceKey (pullMove sourceKey s m) (rekeyed m.oldKey m.key entries) := by
  refine ⟨distinct_rekeyed h.distinct fresh, fun node key => ?_⟩
  have held : ∀ node ∈ m.old.endKeys.filter (· ≠ sourceKey),
      s.adjacency.contains node = true := by
    intro other touched
    simp only [List.mem_filter, decide_eq_true_eq] at touched
    exact Adjacency.contains_of_mem_eventsAt
      ((h.adjacency other m.oldKey).mpr ⟨touched.2, m.old, inside, touched.1⟩)
  simp only [Store.pullMove]
  rw [Adjacency.mem_eventsAt_foldl_relink held, h.adjacency]
  simp only [mem_rekeyed h.distinct inside, List.mem_filter, decide_eq_true_eq]
  constructor
  · rintro (⟨⟨away, e, listed, touches⟩, notOld⟩ | ⟨⟨touches, away⟩, rfl⟩)
    · refine ⟨away, e, Or.inr ⟨?_, listed⟩, touches⟩
      rintro rfl
      have isOld := Entries.value_unique h.distinct listed inside
      exact notOld ⟨isOld ▸ touches, away⟩ rfl
    · exact ⟨away, m.old, Or.inl ⟨rfl, rfl⟩, touches⟩
  · rintro ⟨away, e, ⟨rfl, rfl⟩ | ⟨notOld, listed⟩, touches⟩
    · exact Or.inr ⟨⟨touches, away⟩, rfl⟩
    · exact Or.inl ⟨⟨away, e, listed, touches⟩, fun _ => notOld⟩

theorem foldl_rekeyed (moves : List Move) (entries : List (String × Event)) :
    moves.foldl (fun entries m => rekeyed m.oldKey m.key entries) entries =
      entries.map fun entry => (renamed moves entry.1, entry.2) := by
  induction moves generalizing entries with
  | nil => simp [renamed]
  | cons m rest ih =>
      rw [List.foldl_cons, ih, rekeyed, List.map_map]
      refine List.map_congr_left fun entry _ => ?_
      simp only [Function.comp_apply, renamed, List.foldl_cons]
      split <;> rfl

theorem Midway.foldl_pullMove {entries : List (String × Event)} (h : Midway sourceKey s entries)
    (inside : ∀ m ∈ moves, (m.oldKey, m.old) ∈ entries)
    (fresh : ∀ m ∈ moves, m.key ∈ entries.map Prod.fst → m.key = m.oldKey)
    (apart : moves.Pairwise Move.Apart) :
    Midway sourceKey (moves.foldl (Store.pullMove sourceKey) s)
      (entries.map fun entry => (renamed moves entry.1, entry.2)) := by
  rw [← foldl_rekeyed]
  induction moves generalizing s entries with
  | nil => exact h
  | cons m rest ih =>
      obtain ⟨apartFirst, apartRest⟩ := List.pairwise_cons.mp apart
      have here := inside m List.mem_cons_self
      refine ih (h.pullMove here (fresh m List.mem_cons_self)) ?_ ?_ apartRest
      · intro n later
        exact (mem_rekeyed h.distinct here).mpr (Or.inr
          ⟨(apartFirst n later).old.symm, inside n (List.mem_cons_of_mem _ later)⟩)
      · intro n later listed
        obtain ⟨⟨key, e⟩, held, rfl⟩ := List.mem_map.mp listed
        rcases (mem_rekeyed h.distinct here).mp held with ⟨sameKey, _⟩ | ⟨_, before⟩
        · exact absurd sameKey.symm (apartFirst n later).new
        · exact fresh n (List.mem_cons_of_mem _ later) (List.mem_map_of_mem before)

theorem Consistent.midway (h : s.Consistent) (sourceKey : String) :
    Midway sourceKey { s with adjacency := s.adjacency.erase sourceKey }
      s.events.entries.entries := by
  refine ⟨s.events.entries.distinct, fun node key => ?_⟩
  rw [← h.adjacency]
  by_cases same : node = sourceKey
  · simp [Adjacency.eventsAt, same, OrderedSet.mem_def, OrderedSet.empty]
  · simp [Adjacency.eventsAt, same]

/-! ## Consistency after all moves -/

/-- Events that come onto a shelf one after the other keep it consistent when they get in the
    way neither of what is there nor of each other. -/
theorem consistent_foldl_putAt {events : Shelf Event}
    (h : events.Consistent) (own : ∀ m ∈ moves, Entity.logicKey? m.event = some m.key)
    (absent : ∀ m ∈ moves, events.contains m.key = false)
    (unheld : ∀ m ∈ moves, ∀ fingerprint, Entity.fingerprint m.event = some fingerprint →
      events.holders.get? fingerprint = none)
    (different : moves.Pairwise fun m n => m.key ≠ n.key)
    (apart : moves.Pairwise fun m n => ∀ fingerprint,
      Entity.fingerprint m.event = some fingerprint →
        Entity.fingerprint n.event ≠ some fingerprint) :
    (moves.foldl (fun events m => events.putAt m.place m.key m.event) events).Consistent := by
  induction moves generalizing events with
  | nil => exact h
  | cons m rest ih =>
      obtain ⟨differentFirst, different⟩ := List.pairwise_cons.mp different
      obtain ⟨apartFirst, apart⟩ := List.pairwise_cons.mp apart
      have put := h.putAt m.place (own m List.mem_cons_self) (absent m List.mem_cons_self)
        (unheld m List.mem_cons_self)
      refine ih put ?_ ?_ ?_ different apart
      · intro n later
        exact own n (List.mem_cons_of_mem _ later)
      · intro n later
        change (events.entries.insertAt m.place m.key m.event).contains n.key = false
        rw [OrderedMap.contains, OrderedMap.get?_insertAt, if_neg (differentFirst n later).symm]
        exact absent n (List.mem_cons_of_mem _ later)
      · intro n later fingerprint marked
        have notYet := unheld n (List.mem_cons_of_mem _ later) fingerprint marked
        simp only [Shelf.putAt, Shelf.hold]
        split
        · rename_i other ofFirst
          have distinct : fingerprint ≠ other := by
            rintro rfl
            exact apartFirst n later fingerprint ofFirst marked
          rw [SortedMap.get?_insert, if_neg distinct, notYet]
        · exact notYet

theorem Planned.consistent_moved (planned : Planned c events sourceKey target moving moves)
    (h : events.Consistent)
    (apart : (movesOnShelf c events sourceKey target moving).Pairwise Move.Apart) :
    (moved events (movesOnShelf c events sourceKey target moving)).Consistent := by
  have pulled := planned.entries_pulled
  have rest := h.foldl_remove ((movesOnShelf c events sourceKey target moving).reverse.map
    Move.oldKey)
  rw [moved]
  generalize List.foldl (fun (events : Shelf Event) key => (events.remove key).2) events _ =
    staying at pulled rest ⊢
  have stays {key : String} {e : Event} : staying.get? key = some e ↔
      events.get? key = some e ∧ key ∉ moving := by
    rw [← Shelf.mem_entries_iff, pulled, List.mem_filter, Shelf.mem_entries_iff]
    simp
  refine consistent_foldl_putAt rest ?_ ?_ ?_ (apart.imp Move.Apart.new) ?_
  · intro m listed
    have sound := planned.sound ((planned.mem_movesOnShelf m).mp listed)
    rw [Entity.logicKey?_of_stamped sound.stamping, sound.keyed]
  · intro m listed
    have sound := planned.sound ((planned.mem_movesOnShelf m).mp listed)
    rw [Bool.eq_false_iff]
    intro contained
    obtain ⟨e, held⟩ := (staying.entries.contains_iff m.key).mp contained
    have before := stays.mp held
    exact before.2 (sound.free ((events.entries.contains_iff m.key).mpr ⟨e, before.1⟩))
  · intro m listed fingerprint marked
    have sound := planned.sound ((planned.mem_movesOnShelf m).mp listed)
    rw [Option.eq_none_iff_forall_ne_some]
    intro holder stillHeld
    obtain ⟨e, held, carries⟩ := rest.holds.mp stillHeld
    have before := stays.mp held
    exact before.2 (sound.unheld marked (h.holds.mpr ⟨e, before.1, carries⟩))
  · refine (planned.perm_movesOnShelf.pairwise_iff ?_).mp planned.apart
    intro m n distinct fingerprint ofN ofM
    exact distinct fingerprint ofM ofN

theorem Planned.mem_endKeys_finalEntry (h : s.Consistent) {targetKey : String}
    (keyed : Entity.logicKey? target = some targetKey)
    (planned : Planned c s.events sourceKey target (s.adjacency.eventsAt sourceKey) moves)
    {entry : String × Event} (inside : entry ∈ s.events.entries.entries) (node : String) :
    node ∈ (finalEntry c sourceKey target (s.adjacency.eventsAt sourceKey) entry).2.endKeys ↔
      node ∈ entry.2.endKeys ∧ node ≠ sourceKey ∨
        sourceKey ∈ entry.2.endKeys ∧ node = targetKey := by
  rw [finalEntry]
  split
  · rename_i isMoving
    obtain ⟨m, listed, rfl, became⟩ := planned.move_of_entry inside isMoving
    have sound := planned.sound listed
    have ofNew : Entity.logicKey? m.event = some m.key := by
      rw [Entity.logicKey?_of_stamped sound.stamping, sound.keyed]
    rw [became]
    exact (planned.led keyed listed).mem_endKeys keyed (h.events.keyed sound.held) ofNew node
  · rename_i stays
    have away : sourceKey ∉ entry.2.endKeys := fun touches =>
      stays ((touches_iff_moving h.adjacency inside).mp touches)
    constructor
    · intro touches
      exact Or.inl ⟨touches, fun same => away (same ▸ touches)⟩
    · rintro (⟨touches, _⟩ | ⟨touches, _⟩)
      · exact touches
      · exact absurd touches away

theorem mem_foldl_insert (moves : List Move) (events : OrderedSet String) (key : String) :
    key ∈ moves.foldl (fun events m => events.insert m.key) events ↔
      key ∈ events ∨ key ∈ moves.map Move.key := by
  induction moves generalizing events with
  | nil => simp
  | cons m rest ih =>
      rw [List.foldl_cons, ih, OrderedSet.mem_insert, List.map_cons, List.mem_cons]
      tauto

/-- After the last move, the adjacency has every event under its final key. -/
theorem Planned.midway (h : s.Consistent)
    (planned : Planned c s.events sourceKey target (s.adjacency.eventsAt sourceKey) moves)
    (repointsApart : s.RepointsApart sourceKey target) :
    Midway sourceKey
      ((movesOnShelf c s.events sourceKey target
        (s.adjacency.eventsAt sourceKey)).reverse.foldl (Store.pullMove sourceKey)
          { s with adjacency := s.adjacency.erase sourceKey })
      (s.events.entries.entries.map fun entry =>
        ((finalEntry c sourceKey target (s.adjacency.eventsAt sourceKey) entry).1, entry.2)) := by
  have apart := planned.apart_moves h repointsApart
  have reversed := List.pairwise_reverse.mpr (apart.imp Move.Apart.symm)
  have finalKeys : (s.events.entries.entries.map fun entry =>
      ((finalEntry c sourceKey target (s.adjacency.eventsAt sourceKey) entry).1, entry.2)) =
        s.events.entries.entries.map fun entry =>
          (renamed (movesOnShelf c s.events sourceKey target
            (s.adjacency.eventsAt sourceKey)).reverse entry.1, entry.2) :=
    List.map_congr_left fun entry inside => by
      rw [planned.renamed_eq (reversed.imp Move.Apart.before) inside fun m _ => by
        rw [List.mem_reverse, planned.mem_movesOnShelf]]
  rw [finalKeys]
  refine (h.midway sourceKey).foldl_pullMove ?_ ?_ reversed
  all_goals
    intro m listed
    rw [List.mem_reverse] at listed
    have sound := planned.sound ((planned.mem_movesOnShelf m).mp listed)
  · exact (s.events.mem_entries_iff _ _).mpr sound.held
  · intro inUse
    have contained : s.events.contains m.key = true := (s.events.entries.mem_keys_iff _).mp inUse
    obtain ⟨e, held⟩ := (s.events.entries.contains_iff _).mp contained
    obtain ⟨n, other, isOld, _⟩ := planned.exists_move held (sound.free contained)
    by_contra notOwn
    have distinct : m ≠ n := fun same => notOwn (same ▸ isOld.symm)
    exact (apart.forall listed ((planned.mem_movesOnShelf n).mpr other) distinct).left
      isOld.symm

theorem Planned.different_keys (h : s.Consistent)
    (planned : Planned c s.events sourceKey target (s.adjacency.eventsAt sourceKey) moves)
    (repointsApart : s.RepointsApart sourceKey target) : (moves.map Move.key).Nodup := by
  rw [(planned.perm_movesOnShelf.map Move.key).nodup_iff, List.Nodup, List.pairwise_map]
  exact (planned.apart_moves h repointsApart).imp Move.Apart.new

theorem Planned.entries_applyMoves (h : s.Consistent) (targetKey : String)
    (planned : Planned c s.events sourceKey target (s.adjacency.eventsAt sourceKey) moves)
    (repointsApart : s.RepointsApart sourceKey target) :
    (s.applyMoves sourceKey targetKey moves).events.entries.entries =
      s.events.entries.entries.map
        (finalEntry c sourceKey target (s.adjacency.eventsAt sourceKey)) := by
  rw [planned.events_applyMoves, planned.entries_moved (planned.different_keys h repointsApart)]

theorem Planned.mem_eventsAt_applyMoves (h : s.Consistent) (targetKey : String)
    (planned : Planned c s.events sourceKey target (s.adjacency.eventsAt sourceKey) moves)
    (repointsApart : s.RepointsApart sourceKey target) (node key : String) :
    key ∈ (s.applyMoves sourceKey targetKey moves).adjacency.eventsAt node ↔
      (node ≠ sourceKey ∧ ∃ entry ∈ s.events.entries.entries, node ∈ entry.2.endKeys ∧
        (finalEntry c sourceKey target (s.adjacency.eventsAt sourceKey) entry).1 = key) ∨
      node = targetKey ∧ ∃ m ∈ moves, m.key = key := by
  have incident : key ∈ (s.applyMoves sourceKey targetKey moves).adjacency.eventsAt node ↔
      key ∈ ((movesOnShelf c s.events sourceKey target
        (s.adjacency.eventsAt sourceKey)).reverse.foldl (Store.pullMove sourceKey)
          { s with adjacency := s.adjacency.erase sourceKey }).adjacency.eventsAt node ∨
        node = targetKey ∧ ∃ m ∈ moves, m.key = key := by
    simp only [Store.applyMoves, planned.sorted]
    rw [Adjacency.eventsAt_insert]
    by_cases same : node = targetKey
    · rw [if_pos same, mem_foldl_insert, same]
      simp only [List.mem_map, planned.mem_movesOnShelf, true_and]
    · rw [if_neg same]
      simp only [same, false_and, or_false]
  rw [incident, (planned.midway h repointsApart).adjacency]
  refine or_congr (and_congr_right fun _ => ?_) Iff.rfl
  constructor
  · rintro ⟨e, listed, touches⟩
    obtain ⟨entry, inside, same⟩ := List.mem_map.mp listed
    obtain ⟨sameKey, rfl⟩ := Prod.mk.inj same
    exact ⟨entry, inside, touches, sameKey⟩
  · rintro ⟨entry, inside, touches, rfl⟩
    exact ⟨entry.2, List.mem_map_of_mem inside, touches⟩

theorem Planned.adjacency_applyMoves (h : s.Consistent) {targetKey : String}
    (keyed : Entity.logicKey? target = some targetKey)
    (planned : Planned c s.events sourceKey target (s.adjacency.eventsAt sourceKey) moves)
    (repointsApart : s.RepointsApart sourceKey target) :
    (s.applyMoves sourceKey targetKey moves).adjacency.Mirrors
      (s.events.entries.entries.map
        (finalEntry c sourceKey target (s.adjacency.eventsAt sourceKey))) := by
  intro node key
  rw [planned.mem_eventsAt_applyMoves h targetKey repointsApart]
  constructor
  · rintro (⟨away, entry, inside, touches, rfl⟩ | ⟨rfl, m, listed, rfl⟩)
    · exact ⟨_, List.mem_map_of_mem inside,
        (planned.mem_endKeys_finalEntry h keyed inside node).mpr (Or.inl ⟨touches, away⟩)⟩
    · have sound := planned.sound listed
      have inside := (s.events.mem_entries_iff _ _).mpr sound.held
      have isMoving := planned.mem_moving listed
      have final := planned.mem_endKeys_finalEntry h keyed inside node
      have became : finalEntry c sourceKey target (s.adjacency.eventsAt sourceKey)
          (m.oldKey, m.old) = (m.key, m.event) := by
        rw [finalEntry, if_pos isMoving, sound.movedEntry_eq]
      rw [became] at final
      refine ⟨m.event, became ▸ List.mem_map_of_mem inside, final.mpr (Or.inr ⟨?_, rfl⟩)⟩
      exact (touches_iff_moving h.adjacency inside).mpr isMoving
  · rintro ⟨e, listed, touches⟩
    obtain ⟨entry, inside, became⟩ := List.mem_map.mp listed
    have final := planned.mem_endKeys_finalEntry h keyed inside node
    rw [became] at final
    rcases final.mp touches with ⟨touched, away⟩ | ⟨touched, rfl⟩
    · exact Or.inl ⟨away, entry, inside, touched, congrArg Prod.fst became⟩
    · have isMoving := (touches_iff_moving h.adjacency inside).mp touched
      obtain ⟨m, isMove, rfl, movedTo⟩ := planned.move_of_entry inside isMoving
      rw [finalEntry, if_pos isMoving, movedTo] at became
      exact Or.inr ⟨rfl, m, isMove, congrArg Prod.fst became⟩

theorem Consistent.applyMoves (h : s.Consistent) {targetKey : String}
    (keyed : Entity.logicKey? target = some targetKey)
    (planned : Planned c s.events sourceKey target (s.adjacency.eventsAt sourceKey) moves)
    (repointsApart : s.RepointsApart sourceKey target) :
    (s.applyMoves sourceKey targetKey moves).Consistent := by
  refine ⟨?_, ?_, ?_, ?_⟩
  · simp only [Store.applyMoves, nodes_foldl_pullMove]
    exact h.nodes
  · rw [planned.events_applyMoves]
    exact planned.consistent_moved h.events (planned.apart_moves h repointsApart)
  · rw [planned.entries_applyMoves h targetKey repointsApart]
    exact planned.groups_applyMoves h.grouped keyed (planned.different_keys h repointsApart)
      ((planned.apart_moves h repointsApart).imp Move.Apart.inOrder)
  · rw [planned.entries_applyMoves h targetKey repointsApart]
    exact planned.adjacency_applyMoves h keyed repointsApart

/-- An update of a node keeps a store consistent, if it leads the events at the node to keys
    apart from each other where it leads them to another key at all. -/
theorem Consistent.updateNode (h : s.Consistent) (c : Catalog) (sourceKey sourceId : String)
    (target : Node)
    (repointsApart : (s.updateNode c sourceKey sourceId target).1.isOk = true →
      Entity.logicKey? target ≠ some sourceKey → s.RepointsApart sourceKey target) :
    (s.updateNode c sourceKey sourceId target).2.Consistent := by
  rcases updated : s.updateNode c sourceKey sourceId target with ⟨cause | stored, s'⟩
  · rw [updateNode_eq_error updated]
    exact h
  · obtain ⟨r, passed, rfl, outcome⟩ := updateNode_eq_ok updated
    have replaced := h.withNodes (h.nodes.replace passed rfl rfl)
    obtain ⟨keyed, _⟩ := Shelf.replacement_eq_ok_iff.mp passed
    rcases outcome with ⟨_, rfl⟩ | ⟨changed, moves, planned, rfl⟩
    · exact replaced
    · have apart := repointsApart (by rw [updated]; rfl) (by simpa [keyed] using changed)
      exact Consistent.applyMoves replaced keyed planned apart

end Store

end SchemaGraph
