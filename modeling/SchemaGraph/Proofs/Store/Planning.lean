import SchemaGraph.Proofs.Store.Rekeying

/-! # Plans of moves

Before a node gets another key, a move is planned for each event at it. A plan says of each
move that it can be carried out among the events that stay; that no two moves have one
fingerprint is checked as well, that they have different keys is not.
-/

namespace SchemaGraph

@[simp] theorem Endpoint.logicKey?_ofNode (n : Node) :
    (Endpoint.ofNode n).logicKey? = Entity.logicKey? n := rfl

namespace Store

variable {c : Catalog} {s : Store} {sourceKey : String} {target : Node}

/-! ## Pointing to another node -/

/-- What an event becomes when all its ends at a node are led to another one. -/
structure Led (sourceKey : String) (target : Node) (old new : Event) : Prop where
  left : new.left = if old.leftKey? = some sourceKey then .ofNode target else old.left
  right : new.right = if old.rightKey? = some sourceKey then .ofNode target else old.right
  membership : new.membership = old.membership
  /-- Of the core, nothing but the fingerprint changes. -/
  core : new.core.stale = old.core.stale

theorem eq_withFingerprint {one other : Event} (left : other.left = one.left)
    (right : other.right = one.right) (membership : other.membership = one.membership)
    (core : other.core.stale = one.core.stale) :
    other = Entity.withFingerprint one (Entity.fingerprint other) := by
  obtain ⟨_, _, _, ⟨_, _, _, _, _, _, _⟩⟩ := one
  obtain ⟨_, _, _, ⟨_, _, _, _, _, _, _⟩⟩ := other
  simp only [Core.stale, Core.mk.injEq] at core left right membership
  simp only [Entity.withFingerprint, Entity.modifyCore, Entity.withCore, Entity.core,
    Entity.fingerprint, left, right, membership, core]

theorem Led.typeName {old new : Event} (led : Led sourceKey target old new) :
    new.core.typeName = old.core.typeName := by
  have same : new.core.stale.typeName = old.core.stale.typeName := by rw [led.core]
  exact same

theorem rightKey?_setLeft {e : Event} {left : Endpoint} (identified : left.logicKey?.isSome)
    (before : e.leftKey?.isSome) : (e.setLeft left).rightKey? = e.rightKey? := by
  have effective : Entity.isEffective e = true := by
    rw [Event.leftKey?] at before
    by_contra notEffective
    simp [notEffective] at before
  have still : Entity.isEffective (e.setLeft left) = true := by
    obtain ⟨hasId, hasType, _, hasRight⟩ := Event.isEffective_iff.mp effective
    exact Event.isEffective_iff.mpr ⟨hasId, hasType, identified, hasRight⟩
  rw [Event.rightKey?, Event.rightKey?, if_pos effective, if_pos still]
  rfl

theorem led_repoint {targetKey : String} (keyed : Entity.logicKey? target = some targetKey)
    (e : Event) : Led sourceKey target e (repoint sourceKey target e) := by
  have identified : (Endpoint.ofNode target).logicKey?.isSome := by simp [keyed]
  rw [repoint]
  by_cases atLeft : e.leftKey? = some sourceKey
  · have sameRight := rightKey?_setLeft identified (Option.isSome_of_eq_some atLeft)
    by_cases atRight : e.rightKey? = some sourceKey
    · simp only [atLeft, if_true, sameRight, atRight]
      exact ⟨by simp [Event.setRight, Event.setLeft, atLeft], by simp [Event.setRight, atRight],
        rfl, rfl⟩
    · simp only [atLeft, if_true, sameRight, atRight, if_false]
      exact ⟨by simp [Event.setLeft, atLeft], by simp [Event.setLeft, atRight], rfl, rfl⟩
  · by_cases atRight : e.rightKey? = some sourceKey
    · simp only [atLeft, if_false, atRight, if_true]
      exact ⟨by simp [Event.setRight, atLeft], by simp [Event.setRight, atRight], rfl, rfl⟩
    · simp only [atLeft, atRight, if_false]
      exact ⟨by simp [atLeft], by simp [atRight], rfl, rfl⟩

theorem Led.stamped {old new stampedOne : Event} (led : Led sourceKey target old new)
    (stamping : Entity.stamped c new = .ok stampedOne) : Led sourceKey target old stampedOne := by
  obtain ⟨f, _, rfl⟩ := Entity.stamped_eq_ok_iff.mp stamping
  exact ⟨led.left, led.right, led.membership, led.core⟩

theorem Led.leftKey?_eq {old new : Event} (led : Led sourceKey target old new)
    {targetKey oldKey newKey : String} (keyed : Entity.logicKey? target = some targetKey)
    (ofOld : Entity.logicKey? old = some oldKey) (ofNew : Entity.logicKey? new = some newKey) :
    new.leftKey? = if old.leftKey? = some sourceKey then some targetKey else old.leftKey? := by
  rw [Event.leftKey?_of_logicKey? ofNew, led.left, apply_ite Endpoint.logicKey?,
    Endpoint.logicKey?_ofNode, keyed, ← Event.leftKey?_of_logicKey? ofOld]

theorem Led.rightKey?_eq {old new : Event} (led : Led sourceKey target old new)
    {targetKey oldKey newKey : String} (keyed : Entity.logicKey? target = some targetKey)
    (ofOld : Entity.logicKey? old = some oldKey) (ofNew : Entity.logicKey? new = some newKey) :
    new.rightKey? = if old.rightKey? = some sourceKey then some targetKey else old.rightKey? := by
  rw [Event.rightKey?_of_logicKey? ofNew, led.right, apply_ite Endpoint.logicKey?,
    Endpoint.logicKey?_ofNode, keyed, ← Event.rightKey?_of_logicKey? ofOld]

/-- An event that is led away from a node has only left that node, and only for the target. -/
theorem Led.mem_endKeys {old new : Event} (led : Led sourceKey target old new)
    {targetKey oldKey newKey : String} (keyed : Entity.logicKey? target = some targetKey)
    (ofOld : Entity.logicKey? old = some oldKey) (ofNew : Entity.logicKey? new = some newKey)
    (node : String) : node ∈ new.endKeys ↔
      node ∈ old.endKeys ∧ node ≠ sourceKey ∨ sourceKey ∈ old.endKeys ∧ node = targetKey := by
  simp only [Event.mem_endKeys, led.leftKey?_eq keyed ofOld ofNew,
    led.rightKey?_eq keyed ofOld ofNew]
  grind

theorem repoint_stamped {given : Node} (stamping : Entity.stamped c target = .ok given)
    (e : Event) : repoint sourceKey given e = repoint sourceKey target e := by
  obtain ⟨f, _, rfl⟩ := Entity.stamped_eq_ok_iff.mp stamping
  rfl

/-! ## Plans -/

/-- A move that can be carried out among the events that stay. -/
structure Move.Sound (c : Catalog) (events : Shelf Event) (sourceKey : String)
    (target : Node) (moving : OrderedSet String) (m : Move) : Prop where
  placed : events.entries.indexOf? m.oldKey = some m.place
  held : events.get? m.oldKey = some m.old
  keyed : Entity.logicKey? (repoint sourceKey target m.old) = some m.key
  stamping : Entity.stamped c (repoint sourceKey target m.old) = .ok m.event
  free : events.contains m.key = true → m.key ∈ moving
  unheld {fingerprint holder : String} : Entity.fingerprint m.event = some fingerprint →
    events.holders.get? fingerprint = some holder → holder ∈ moving

theorem planMove_eq_ok_iff {moving : OrderedSet String} {planned : List String} {place : Nat}
    {oldKey : String} {old : Event} {m : Move}
    (placed : s.events.entries.indexOf? oldKey = some place)
    (held : s.events.get? oldKey = some old) :
    s.planMove c sourceKey target moving planned place oldKey old = .ok m ↔
      m.oldKey = oldKey ∧ Move.Sound c s.events sourceKey target moving m ∧
        ∀ fingerprint, Entity.fingerprint m.event = some fingerprint → fingerprint ∉ planned := by
  rw [planMove]
  constructor
  · intro planning
    obtain ⟨key, keying, afterKey⟩ := Outcome.bind_eq_ok_iff.mp planning
    have keyed := Entity.logicId_eq_ok_iff.mp (Outcome.mapError_eq_ok_iff.mp keying)
    split at afterKey
    · cases afterKey
    · rename_i free
      have free : s.events.contains key = true → key ∈ moving := by simpa using free
      obtain ⟨event, stamps, afterEvent⟩ := Outcome.bind_eq_ok_iff.mp afterKey
      have stamping := Outcome.mapError_eq_ok_iff.mp stamps
      split at afterEvent
      · rename_i unmarked
        cases afterEvent
        exact ⟨rfl, ⟨placed, held, keyed, stamping, free, by simp [unmarked]⟩, by simp [unmarked]⟩
      · rename_i fingerprint marked
        split at afterEvent
        · cases afterEvent
        · rename_i noHolder
          split at afterEvent
          · cases afterEvent
          · rename_i fresh
            cases afterEvent
            refine ⟨rfl, ⟨placed, held, keyed, stamping, free, ?_⟩, ?_⟩
            · intro other holder isOwn heldBy
              rw [marked, Option.some_inj] at isOwn
              rw [isOwn, heldBy] at noHolder
              simpa using noHolder
            · intro other isOwn
              rw [marked, Option.some_inj] at isOwn
              exact isOwn ▸ fresh
  · rintro ⟨rfl, sound, fresh⟩
    obtain rfl := Option.some_inj.mp (sound.placed.symm.trans placed)
    obtain rfl := Option.some_inj.mp (sound.held.symm.trans held)
    have free : ¬ (s.events.contains m.key && !decide (m.key ∈ moving)) = true := by
      simpa using sound.free
    have keying := Entity.logicId_eq_ok_iff.mpr sound.keyed
    refine Outcome.bind_eq_ok_iff.mpr ⟨m.key, Outcome.mapError_eq_ok_iff.mpr keying, ?_⟩
    rw [if_neg free]
    refine Outcome.bind_eq_ok_iff.mpr
      ⟨m.event, Outcome.mapError_eq_ok_iff.mpr sound.stamping, ?_⟩
    split
    · rfl
    · rename_i fingerprint marked
      have noHolder : ((s.events.holders.get? fingerprint).filter fun holder =>
          decide (holder ∉ moving)) = none := by
        rw [Option.filter_eq_none_iff]
        intro holder heldBy
        simpa using sound.unheld marked heldBy
      simp only [noHolder, fresh fingerprint marked, if_false]
      rfl

/-- The moves of a plan are those of the held events in their order; each can be carried out,
    and no two of them have one fingerprint. -/
theorem planMoves_sound {moving : OrderedSet String} {planned keys : List String}
    {moves : List Move}
    (planning : s.planMoves c sourceKey target moving planned keys = .ok moves) :
    moves.map Move.oldKey = keys.filter s.events.contains ∧
      (∀ m ∈ moves, Move.Sound c s.events sourceKey target moving m ∧
        ∀ fingerprint, Entity.fingerprint m.event = some fingerprint → fingerprint ∉ planned) ∧
      moves.Pairwise fun m n => ∀ fingerprint, Entity.fingerprint m.event = some fingerprint →
        Entity.fingerprint n.event ≠ some fingerprint := by
  induction keys generalizing planned moves with
  | nil =>
      cases planning
      simp
  | cons key rest ih =>
      rw [planMoves] at planning
      split at planning
      · rename_i place old placed held
        have listed : s.events.contains key = true :=
          (s.events.entries.contains_iff key).mpr ⟨old, held⟩
        obtain ⟨m, first, others⟩ := Outcome.bind_eq_ok_iff.mp planning
        obtain ⟨later, planningRest, whole⟩ := Outcome.bind_eq_ok_iff.mp others
        cases whole
        obtain ⟨ofKey, sound, fresh⟩ := (planMove_eq_ok_iff placed held).mp first
        obtain ⟨keys, soundRest, apart⟩ := ih planningRest
        refine ⟨by simp [listed, ofKey, keys], ?_, ?_⟩
        · intro n inside
          rcases List.mem_cons.mp inside with rfl | insideLater
          · exact ⟨sound, fresh⟩
          · refine ⟨(soundRest n insideLater).1, fun fingerprint marked planned => ?_⟩
            exact (soundRest n insideLater).2 fingerprint marked (List.mem_append_right _ planned)
        · refine List.pairwise_cons.mpr ⟨fun n insideLater fingerprint marked same => ?_, apart⟩
          exact (soundRest n insideLater).2 fingerprint same
            (List.mem_append_left _ (by simp [marked]))
      · rename_i notBoth
        have unlisted : s.events.contains key = false := by
          rw [Bool.eq_false_iff]
          intro listed
          obtain ⟨old, held⟩ := (s.events.entries.contains_iff key).mp listed
          obtain ⟨place, placed⟩ := Option.isSome_iff_exists.mp
            ((s.events.entries.isSome_indexOf? key).trans listed)
          exact notBoth place old placed held
        simpa [unlisted] using ih planning

theorem planMoves_eq_ok {moving : OrderedSet String} {planned : List String} {moves : List Move}
    (sound : ∀ m ∈ moves, Move.Sound c s.events sourceKey target moving m)
    (fresh : ∀ m ∈ moves, ∀ fingerprint, Entity.fingerprint m.event = some fingerprint →
      fingerprint ∉ planned)
    (apart : moves.Pairwise fun m n => ∀ fingerprint,
      Entity.fingerprint m.event = some fingerprint →
        Entity.fingerprint n.event ≠ some fingerprint) :
    s.planMoves c sourceKey target moving planned (moves.map Move.oldKey) = .ok moves := by
  induction moves generalizing planned with
  | nil => rfl
  | cons m rest ih =>
      obtain ⟨apartFirst, apartRest⟩ := List.pairwise_cons.mp apart
      have here := sound m List.mem_cons_self
      have freshRest : ∀ n ∈ rest, ∀ fingerprint, Entity.fingerprint n.event = some fingerprint →
          fingerprint ∉ (Entity.fingerprint m.event).toList ++ planned := by
        intro n later fingerprint ofN inside
        rcases List.mem_append.mp inside with ofM | before
        · exact apartFirst n later fingerprint (Option.mem_toList.mp ofM) ofN
        · exact fresh n (List.mem_cons_of_mem _ later) fingerprint ofN before
      rw [List.map_cons, planMoves, here.placed, here.held]
      refine Outcome.bind_eq_ok_iff.mpr ⟨m, ?_, ?_⟩
      · exact (planMove_eq_ok_iff here.placed here.held).mpr
          ⟨rfl, here, fresh m List.mem_cons_self⟩
      · refine Outcome.bind_eq_ok_iff.mpr ⟨rest, ?_, rfl⟩
        exact ih (fun n later => sound n (List.mem_cons_of_mem _ later)) freshRest apartRest

/-- The moves of the held events under the moving keys, as far as they get by without
    knowing of each other, and with different fingerprints. -/
structure Planned (c : Catalog) (events : Shelf Event) (sourceKey : String) (target : Node)
    (moving : OrderedSet String) (moves : List Move) : Prop where
  oldKeys : moves.map Move.oldKey = moving.members.filter events.contains
  sound {m : Move} : m ∈ moves → m.Sound c events sourceKey target moving
  apart : moves.Pairwise fun m n => ∀ fingerprint,
    Entity.fingerprint m.event = some fingerprint → Entity.fingerprint n.event ≠ some fingerprint

theorem planned_of_planMoves {moving : OrderedSet String} {moves : List Move}
    (planning : s.planMoves c sourceKey target moving [] moving.members = .ok moves) :
    Planned c s.events sourceKey target moving moves := by
  obtain ⟨oldKeys, sound, apart⟩ := planMoves_sound planning
  exact ⟨oldKeys, fun inside => (sound _ inside).1, apart⟩

/-- A successful update of a node replaces the node; when it changes the key, it also
    carries out a plan for the events at the node. -/
theorem updateNode_eq_ok {s' : Store} {sourceId : String} {stored : Node}
    (updated : s.updateNode c sourceKey sourceId target = (.ok stored, s')) :
    ∃ r, s.nodes.replacement c sourceKey sourceId target = .ok r ∧ stored = r.target ∧
      (r.key = sourceKey ∧ s' = { s with nodes := s.nodes.replace sourceKey r } ∨
        r.key ≠ sourceKey ∧ ∃ moves,
          Planned c s.events sourceKey target (s.adjacency.eventsAt sourceKey) moves ∧
          s' = Store.applyMoves { s with nodes := s.nodes.replace sourceKey r }
            sourceKey r.key moves) := by
  rw [updateNode] at updated
  cases passed : s.nodes.replacement c sourceKey sourceId target with
  | error cause => simp [passed] at updated
  | ok r =>
      refine ⟨r, rfl, ?_⟩
      obtain ⟨_, _, _, _, _, _, taken⟩ := Shelf.replacement_eq_ok_iff.mp passed
      have stamping := (Shelf.admitted_eq_ok_iff.mp taken).1
      simp only [passed] at updated
      split at updated
      · rename_i same
        cases updated
        exact ⟨rfl, Or.inl ⟨same, rfl⟩⟩
      · rename_i changed
        split at updated
        · cases updated
        · rename_i moves planning
          cases updated
          refine ⟨rfl, Or.inr ⟨changed, moves, ?_, rfl⟩⟩
          have planned := planned_of_planMoves planning
          refine ⟨planned.oldKeys, fun inside => ?_, planned.apart⟩
          have sound := planned.sound inside
          have sameRepoint (e : Event) :
              repoint sourceKey r.target e = repoint sourceKey target e :=
            repoint_stamped stamping e
          exact ⟨sound.placed, sound.held, sameRepoint _ ▸ sound.keyed,
            sameRepoint _ ▸ sound.stamping, sound.free, sound.unheld⟩

theorem updateNode_of_plan {sourceId : String} {r : Shelf.Replacement Node} {moves : List Move}
    (passed : s.nodes.replacement c sourceKey sourceId target = .ok r)
    (changed : r.key ≠ sourceKey)
    (planning : s.planMoves c sourceKey r.target (s.adjacency.eventsAt sourceKey) []
      (s.adjacency.eventsAt sourceKey).members = .ok moves) :
    s.updateNode c sourceKey sourceId target = (.ok r.target,
      Store.applyMoves { s with nodes := s.nodes.replace sourceKey r } sourceKey r.key moves) := by
  rw [updateNode, passed]
  simp only [if_neg changed, planning]

theorem updateNode_eq_error {s' : Store} {sourceId : String} {cause : StoreError}
    (failed : s.updateNode c sourceKey sourceId target = (.error cause, s')) : s' = s := by
  rw [updateNode] at failed
  split at failed
  · exact (Prod.mk.inj failed).2.symm
  · dsimp only at failed
    split at failed
    · cases failed
    · split at failed
      · exact (Prod.mk.inj failed).2.symm
      · cases failed

end Store

end SchemaGraph
