import SchemaGraph.Proofs.Store.Moving

/-! # Moves in the groups

While the events at a node move, the group of their type gets the new key of each in the place
of its old one, the last event on the shelf first. A new key that an earlier event still has
takes that event's place in the group, and goes when the earlier event gets its own new key.
So the groups list all events in the end exactly when no event overtakes an earlier one of its
type in this way.
-/

namespace SchemaGraph

namespace Store

variable {c : Catalog} {s : Store} {sourceKey : String} {target : Node}
  {moving : OrderedSet String} {moves : List Move} {events : Shelf Event}

/-! ## One group -/

/-- Two moves, the first of which is carried out before the second. They are of different
    events to different keys, and the second does not take a key away from the first. -/
structure Move.Before (m n : Move) : Prop where
  old : m.oldKey ≠ n.oldKey
  new : m.key ≠ n.key
  untaken : m.key ≠ n.oldKey

/-- A group in which new keys take the places of old ones, one after the other. -/
def refiled (moves : List Move) (group : OrderedSet String) : OrderedSet String :=
  moves.foldl (fun group m => group.replace m.oldKey m.key) group

/-- A key after moves one behind the other. -/
def renamed (moves : List Move) (key : String) : String :=
  moves.foldl (fun key m => if key = m.oldKey then m.key else key) key

theorem renamed_of_absent {key : String} (absent : ∀ m ∈ moves, m.oldKey ≠ key) :
    renamed moves key = key := by
  induction moves with
  | nil => rfl
  | cons m rest ih =>
      have different : key ≠ m.oldKey := (absent m List.mem_cons_self).symm
      rw [renamed, List.foldl_cons, if_neg different]
      exact ih fun n later => absent n (List.mem_cons_of_mem _ later)

theorem renamed_of_mem (before : moves.Pairwise Move.Before) {m : Move} (inside : m ∈ moves) :
    renamed moves m.oldKey = m.key := by
  induction moves with
  | nil => cases inside
  | cons first rest ih =>
      obtain ⟨beforeRest, before⟩ := List.pairwise_cons.mp before
      rcases List.mem_cons.mp inside with rfl | later
      · rw [renamed, List.foldl_cons, if_pos rfl]
        exact renamed_of_absent fun n later => (beforeRest n later).untaken.symm
      · rw [renamed, List.foldl_cons, if_neg (beforeRest m later).old.symm]
        exact ih before later

/-- When no move takes a key away from an earlier one, the new keys stand where the old ones
    stood. -/
theorem members_refiled {group : OrderedSet String} (before : moves.Pairwise Move.Before)
    (held : ∀ m ∈ moves, m.oldKey ∈ group)
    (fresh : ∀ m ∈ moves, m.key ∈ group → ∃ n ∈ moves, n.oldKey = m.key) :
    (refiled moves group).members = group.members.map (renamed moves) := by
  induction moves generalizing group with
  | nil => exact (List.map_id _).symm
  | cons m rest ih =>
      obtain ⟨beforeRest, before⟩ := List.pairwise_cons.mp before
      -- a listed key that the first move brings could only be that of a later one, which the
      -- order rules out
      have own : m.key ∈ group → m.key = m.oldKey := by
        intro inUse
        obtain ⟨n, inside, isOld⟩ := fresh m List.mem_cons_self inUse
        rcases List.mem_cons.mp inside with rfl | later
        · exact isOld.symm
        · exact absurd isOld.symm (beforeRest n later).untaken
      have heldRest : ∀ n ∈ rest, n.oldKey ∈ group.replace m.oldKey m.key := fun n later =>
        OrderedSet.mem_replace.mpr (Or.inl
          ⟨held n (List.mem_cons_of_mem _ later), (beforeRest n later).old.symm⟩)
      have freshRest : ∀ n ∈ rest, n.key ∈ group.replace m.oldKey m.key →
          ∃ p ∈ rest, p.oldKey = n.key := by
        intro n later inUse
        rcases OrderedSet.mem_replace.mp inUse with ⟨before, notOld⟩ | same
        · obtain ⟨p, inside, isOld⟩ := fresh n (List.mem_cons_of_mem _ later) before
          rcases List.mem_cons.mp inside with rfl | laterToo
          · exact absurd isOld.symm notOld
          · exact ⟨p, laterToo, isOld⟩
        · exact absurd same.symm (beforeRest n later).new
      have replaced := OrderedSet.members_replace (held m List.mem_cons_self) own
      have whole := ih before heldRest freshRest
      rw [replaced, List.map_map] at whole
      exact whole

theorem mem_refiled {group : OrderedSet String} {key : String}
    (notNew : ∀ m ∈ moves, m.key ≠ key) :
    key ∈ refiled moves group ↔ key ∈ group ∧ ∀ m ∈ moves, m.oldKey ≠ key := by
  induction moves generalizing group with
  | nil => simp [refiled]
  | cons m rest ih =>
      have here : key ≠ m.key := (notNew m List.mem_cons_self).symm
      have later : key ∈ refiled rest (group.replace m.oldKey m.key) ↔
          key ∈ group.replace m.oldKey m.key ∧ ∀ n ∈ rest, n.oldKey ≠ key :=
        ih fun n later => notNew n (List.mem_cons_of_mem _ later)
      rw [refiled, List.foldl_cons]
      refine later.trans ?_
      simp only [OrderedSet.mem_replace, here, or_false, List.forall_mem_cons, and_assoc]
      rw [ne_comm (a := key)]

theorem untaken_of_listed {group : OrderedSet String}
    (different : moves.Pairwise fun m n => m.key ≠ n.key)
    (listed : ∀ m ∈ moves, m.key ∈ refiled moves group) :
    moves.Pairwise fun m n => m.key ≠ n.oldKey := by
  induction moves generalizing group with
  | nil => exact List.Pairwise.nil
  | cons m rest ih =>
      obtain ⟨differentRest, different⟩ := List.pairwise_cons.mp different
      -- no later move brings the key of the first one again, so it must never have gone
      have untaken := (mem_refiled fun n later => (differentRest n later).symm).mp
        (listed m List.mem_cons_self)
      refine List.pairwise_cons.mpr ⟨fun n later => (untaken.2 n later).symm, ?_⟩
      exact ih different fun n later => listed n (List.mem_cons_of_mem _ later)

/-! ## All groups -/

/-- The moves of the events of a type. -/
def movesOfType (moves : List Move) (typeName : String) : List Move :=
  moves.filter fun m => decide (m.old.core.typeName = some typeName)

theorem keys_groups_foldl_pullMove (moves : List Move) (s : Store) :
    (moves.foldl (pullMove sourceKey) s).groups.keys = s.groups.keys := by
  induction moves generalizing s with
  | nil => rfl
  | cons m rest ih =>
      rw [List.foldl_cons, ih, pullMove]
      cases m.old.core.typeName with
      | none => rfl
      | some typeName => exact TypeGroups.keys_refile s.groups typeName m.oldKey m.key

theorem get?_groups_foldl_pullMove (moves : List Move) (s : Store) (typeName : String) :
    (moves.foldl (pullMove sourceKey) s).groups.get? typeName =
      (s.groups.get? typeName).map (refiled (movesOfType moves typeName)) := by
  induction moves generalizing s with
  | nil => exact Option.map_id'.symm
  | cons m rest ih =>
      rw [List.foldl_cons, ih]
      cases ofType : m.old.core.typeName with
      | none => simp [pullMove, movesOfType, ofType]
      | some own =>
          simp only [pullMove, ofType, TypeGroups.get?_refile, Option.map_map, movesOfType]
          congr 1
          funext group
          by_cases same : typeName = own
          · simp [same, ofType, refiled]
          · simp [same, Ne.symm same, ofType]

/-! ## All moves of a plan -/

theorem Planned.led (planned : Planned c events sourceKey target moving moves)
    {targetKey : String} (keyed : Entity.logicKey? target = some targetKey) {m : Move}
    (inside : m ∈ moves) : Led sourceKey target m.old m.event :=
  (led_repoint keyed m.old).stamped (planned.sound inside).stamping

theorem Planned.typeName_finalEntry
    (planned : Planned c events sourceKey target moving moves) {targetKey : String}
    (keyed : Entity.logicKey? target = some targetKey) {entry : String × Event}
    (inside : entry ∈ events.entries.entries) :
    (finalEntry c sourceKey target moving entry).2.core.typeName = entry.2.core.typeName := by
  rw [finalEntry]
  split
  · rename_i isMoving
    obtain ⟨m, listed, rfl, became⟩ := planned.move_of_entry inside isMoving
    rw [became]
    exact (planned.led keyed listed).typeName
  · rfl

theorem Planned.renamed_eq (planned : Planned c events sourceKey target moving moves)
    {order : List Move} (before : order.Pairwise Move.Before) {entry : String × Event}
    (inside : entry ∈ events.entries.entries)
    (complete : ∀ m, m.oldKey = entry.1 → (m ∈ order ↔ m ∈ moves)) :
    renamed order entry.1 = (finalEntry c sourceKey target moving entry).1 := by
  rw [finalEntry]
  split
  · rename_i isMoving
    obtain ⟨m, listed, rfl, became⟩ := planned.move_of_entry inside isMoving
    rw [became]
    exact renamed_of_mem before ((complete m rfl).mpr listed)
  · rename_i stays
    refine renamed_of_absent fun m listed same => stays ?_
    exact same ▸ planned.mem_moving ((complete m same).mp listed)

/-- The later of two moving events gets no key that the earlier one has and that is listed in
    the same group. -/
def Move.InOrder (m n : Move) : Prop :=
  n.old.core.typeName = m.old.core.typeName → n.key ≠ m.oldKey

/-- The moves of the events of a type, as they are carried out. -/
def refilings (c : Catalog) (events : Shelf Event) (sourceKey : String) (target : Node)
    (moving : OrderedSet String) (typeName : String) : List Move :=
  movesOfType (movesOnShelf c events sourceKey target moving).reverse typeName

theorem Planned.mem_refilings (planned : Planned c events sourceKey target moving moves)
    {typeName : String} {m : Move} : m ∈ refilings c events sourceKey target moving typeName ↔
      m ∈ moves ∧ m.old.core.typeName = some typeName := by
  rw [refilings, movesOfType, List.mem_filter, List.mem_reverse, planned.mem_movesOnShelf,
    decide_eq_true_eq]

theorem Planned.different_refilings (planned : Planned c events sourceKey target moving moves)
    (different : (moves.map Move.key).Nodup) (typeName : String) :
    (refilings c events sourceKey target moving typeName).Pairwise fun m n => m.key ≠ n.key := by
  rw [(planned.perm_movesOnShelf.map Move.key).nodup_iff, List.Nodup, List.pairwise_map]
    at different
  exact (List.pairwise_reverse.mpr (different.imp Ne.symm)).sublist List.filter_sublist

theorem Planned.before_refilings (planned : Planned c events sourceKey target moving moves)
    (different : (moves.map Move.key).Nodup)
    (inOrder : (movesOnShelf c events sourceKey target moving).Pairwise Move.InOrder)
    (typeName : String) :
    (refilings c events sourceKey target moving typeName).Pairwise Move.Before := by
  have oldKeys := planned.distinct
  rw [(planned.perm_movesOnShelf.map Move.oldKey).nodup_iff, List.Nodup, List.pairwise_map]
    at oldKeys
  have old := (List.pairwise_reverse.mpr (oldKeys.imp Ne.symm)).sublist
    (List.filter_sublist (p := fun m => decide (m.old.core.typeName = some typeName)))
  have untaken := (List.pairwise_reverse.mpr inOrder).sublist
    (List.filter_sublist (p := fun m => decide (m.old.core.typeName = some typeName)))
  refine (old.and ((planned.different_refilings different typeName).and untaken)).imp_of_mem ?_
  rintro m n ofM ofN ⟨differentOld, differentNew, order⟩
  have sameType := (planned.mem_refilings.mp ofM).2.trans (planned.mem_refilings.mp ofN).2.symm
  exact ⟨differentOld, differentNew, order sameType⟩

/-- Where no two moves bring one key, the moves of each type one by one are in order when all
    of them together are. -/
theorem inOrder_of_untaken
    (untaken : ∀ typeName, (refilings c events sourceKey target moving typeName).Pairwise
      fun m n => m.key ≠ n.oldKey)
    (typed : ∀ m ∈ movesOnShelf c events sourceKey target moving,
      ∃ typeName, m.old.core.typeName = some typeName) :
    (movesOnShelf c events sourceKey target moving).Pairwise Move.InOrder := by
  simp only [refilings, movesOfType, List.pairwise_filter, List.pairwise_reverse,
    decide_eq_true_eq] at untaken
  rw [List.pairwise_iff_getElem]
  intro i j insideI insideJ below sameType
  obtain ⟨typeName, ofType⟩ := typed _ (List.getElem_mem insideI)
  exact List.pairwise_iff_getElem.mp (untaken typeName) i j insideI insideJ below
    (sameType.trans ofType) ofType

theorem Planned.get?_groups_applyMoves (targetKey : String)
    (planned : Planned c s.events sourceKey target moving moves) (typeName : String) :
    (s.applyMoves sourceKey targetKey moves).groups.get? typeName =
      (s.groups.get? typeName).map
        (refiled (refilings c s.events sourceKey target moving typeName)) := by
  simp only [applyMoves, planned.sorted, get?_groups_foldl_pullMove, refilings]

theorem Planned.keysOfType_finalEntry
    (planned : Planned c events sourceKey target moving moves) {targetKey typeName : String}
    (keyed : Entity.logicKey? target = some targetKey)
    (before : (refilings c events sourceKey target moving typeName).Pairwise Move.Before) :
    keysOfType (events.entries.entries.map (finalEntry c sourceKey target moving)) typeName =
      (keysOfType events.entries.entries typeName).map
        (renamed (refilings c events sourceKey target moving typeName)) := by
  rw [keysOfType_map fun entry inside => planned.typeName_finalEntry keyed inside, keysOfType,
    List.map_map]
  refine List.map_congr_left fun entry listed => ?_
  obtain ⟨inside, ofType⟩ := List.mem_filter.mp listed
  refine (planned.renamed_eq before inside fun m isOld => ?_).symm
  rw [planned.mem_refilings, and_iff_left_iff_imp]
  intro isMove
  have held := (events.mem_entries_iff _ _).mpr (planned.sound isMove).held
  rw [isOld] at held
  rw [Entries.value_unique events.entries.distinct held inside]
  exact decide_eq_true_eq.mp ofType

/-- When no event overtakes an earlier one of its type, the groups list all events under their
    final keys. -/
theorem Planned.groups_applyMoves (h : s.Grouped) {targetKey : String}
    (keyed : Entity.logicKey? target = some targetKey)
    (planned : Planned c s.events sourceKey target moving moves)
    (different : (moves.map Move.key).Nodup)
    (inOrder : (movesOnShelf c s.events sourceKey target moving).Pairwise Move.InOrder) :
    (s.applyMoves sourceKey targetKey moves).groups.Mirrors
      (s.events.entries.entries.map (finalEntry c sourceKey target moving)) := by
  have before := planned.before_refilings different inOrder
  have finalKeys (typeName : String) := planned.keysOfType_finalEntry keyed (before typeName)
  constructor
  · intro typeName
    have sameGroup := h.groups.held typeName
    rw [OrderedMap.contains] at sameGroup
    rw [finalKeys, OrderedMap.contains, planned.get?_groups_applyMoves, Option.isSome_map,
      sameGroup, ne_eq, ne_eq, List.map_eq_nil_iff]
  · intro typeName group found
    rw [planned.get?_groups_applyMoves, Option.map_eq_some_iff] at found
    obtain ⟨group, found, rfl⟩ := found
    have listed := h.groups.listed found
    rw [finalKeys, ← listed]
    refine members_refiled (before typeName) ?_ ?_
    · intro m inside
      obtain ⟨isMove, ofType⟩ := planned.mem_refilings.mp inside
      have held := (s.events.mem_entries_iff _ _).mpr (planned.sound isMove).held
      exact OrderedSet.mem_def.mpr (listed ▸ mem_keysOfType.mpr ⟨m.old, held, ofType⟩)
    -- a new key is in use only where the plan saw that its event is moving, too
    · intro m inside inUse
      obtain ⟨isMove, _⟩ := planned.mem_refilings.mp inside
      obtain ⟨e, held, ofType⟩ := mem_keysOfType.mp (listed ▸ OrderedSet.mem_def.mp inUse)
      have found := (s.events.mem_entries_iff _ _).mp held
      have isMoving := (planned.sound isMove).free
        ((s.events.entries.contains_iff m.key).mpr ⟨e, found⟩)
      obtain ⟨n, other, isOld, rfl⟩ := planned.exists_move found isMoving
      exact ⟨n, planned.mem_refilings.mpr ⟨other, ofType⟩, isOld⟩

/-- When each group lists the new keys of the events of its type, no event has overtaken an
    earlier one. -/
theorem Planned.inOrder_of_listed (h : s.Grouped) (targetKey : String)
    (planned : Planned c s.events sourceKey target moving moves)
    (different : (moves.map Move.key).Nodup)
    (listed : ∀ m ∈ moves, ∀ typeName, m.old.core.typeName = some typeName →
      ∃ group, (s.applyMoves sourceKey targetKey moves).groups.get? typeName = some group ∧
        m.key ∈ group) :
    (movesOnShelf c s.events sourceKey target moving).Pairwise Move.InOrder := by
  refine inOrder_of_untaken (fun typeName => ?_) fun m inside => ?_
  · have different := planned.different_refilings different typeName
    cases found : s.groups.get? typeName with
    | some group =>
        have inFinal : ∀ m ∈ refilings c s.events sourceKey target moving typeName,
            m.key ∈ refiled (refilings c s.events sourceKey target moving typeName) group := by
          intro m inside
          obtain ⟨isMove, ofType⟩ := planned.mem_refilings.mp inside
          obtain ⟨final, isFinal, inFinal⟩ := listed m isMove typeName ofType
          rw [planned.get?_groups_applyMoves, found, Option.map_some, Option.some_inj] at isFinal
          exact isFinal ▸ inFinal
        exact untaken_of_listed different inFinal
    | none =>
        -- without a group there is no event of the type, and no move of one
        refine List.Pairwise.imp_of_mem (fun {m _} inside _ _ => ?_) different
        obtain ⟨isMove, ofType⟩ := planned.mem_refilings.mp inside
        obtain ⟨final, isFinal, _⟩ := listed m isMove typeName ofType
        rw [planned.get?_groups_applyMoves, found] at isFinal
        cases isFinal
  · exact Event.typeName_of_logicKey?
      (h.keyed (planned.sound ((planned.mem_movesOnShelf m).mp inside)).held)

/-! ## Order before an update -/

/-- Of the events at a node, no later one gets a key that an earlier one of its type has by
    now. -/
def RefilesInOrder (s : Store) (sourceKey : String) (target : Node) : Prop :=
  (s.events.entries.entries.filter fun entry =>
    decide (entry.1 ∈ s.adjacency.eventsAt sourceKey)).Pairwise fun earlier later =>
      later.2.core.typeName = earlier.2.core.typeName →
        Entity.logicKey? (repoint sourceKey target later.2) ≠ some earlier.1

instance (s : Store) (sourceKey : String) (target : Node) :
    Decidable (s.RefilesInOrder sourceKey target) := by
  unfold RefilesInOrder
  infer_instance

theorem Planned.refilesInOrder_iff
    (planned : Planned c s.events sourceKey target (s.adjacency.eventsAt sourceKey) moves) :
    s.RefilesInOrder sourceKey target ↔
      (movesOnShelf c s.events sourceKey target
        (s.adjacency.eventsAt sourceKey)).Pairwise Move.InOrder := by
  rw [RefilesInOrder, ← old_movesOnShelf c s.events sourceKey target, List.pairwise_map]
  refine List.Pairwise.iff_of_mem fun {m n} _ later => ?_
  have ofN := (planned.sound ((planned.mem_movesOnShelf n).mp later)).keyed
  simp only [ofN, ne_eq, Option.some_inj, Move.InOrder]

end Store

end SchemaGraph
