import SchemaGraph.Proofs.Store.Identity
import SchemaGraph.Proofs.Store.Intake
import SchemaGraph.Proofs.Store.Reached
import SchemaGraph.Proofs.Store.Uniqueness

/-! # Access by fingerprint

A user gets at an entity by its logic identifier or by its fingerprint. The second way leads
through the holders of the shelf, which note the fingerprints as they were computed, whatever
the catalog says by now. As long as the holders mirror the entities, it leads where the first
way does.
-/

namespace SchemaGraph

theorem Shelf.verdict_of_ineffective {ε : Type} [Entity ε] {c : Catalog} {s : Shelf ε} {e : ε}
    {overwrite : Bool} (ineffective : Entity.isEffective e = false) :
    s.verdict c e overwrite = .ok none := by
  refine verdict_eq_none_iff.mpr (Or.inl ?_)
  rw [Option.eq_none_iff_forall_ne_some]
  intro key keyed
  rw [Entity.isEffective_iff.mpr ⟨key, keyed⟩] at ineffective
  cases ineffective

namespace Store

/-- How a store gives access to its entities of one kind. -/
structure Access (ε : Type) where
  store : Store
  shelf : Shelf ε
  remove : Lookup → Option ε × Store
  compute : Lookup → (Option ε → Option ε) → Answered Unit
  /-- Add an entity, which may replace another one. -/
  overwrite : ε → Answered Bool

def nodeAccess (c : Catalog) (s : Store) : Access Node where
  store := s
  shelf := s.nodes
  remove := s.removeNode
  compute := s.computeNode c
  overwrite n := s.addNode c n true

def eventAccess (c : Catalog) (s : Store) : Access Event where
  store := s
  shelf := s.events
  remove := s.removeEvent
  compute := s.computeEvent c
  overwrite e := s.addEvent c e true

namespace Access

variable {ε α : Type}

/-- No operation of the access changes a part of the store. -/
structure Leaves (a : Access ε) (part : Store → α) : Prop where
  remove (lookup : Lookup) : part (a.remove lookup).2 = part a.store
  compute (lookup : Lookup) (f : Option ε → Option ε) :
    part (a.compute lookup f).2 = part a.store
  overwrite (e : ε) : part (a.overwrite e).2 = part a.store

variable [Entity ε]

/-- The entity under a key carries a fingerprint. -/
structure CarriedAt (a : Access ε) (fingerprint key : String) (e : ε) : Prop where
  held : a.shelf.get? key = some e
  carries : Entity.fingerprint e = some fingerprint

/-- A fingerprint does what the key of the entity does that carries it. When none carries it,
    nothing is found or removed; what a function makes of nothing is written when it is
    effective. -/
structure AgreesAt (a : Access ε) (fingerprint : String) : Prop where
  unique {one other : String} {d e : ε} : a.CarriedAt fingerprint one d →
    a.CarriedAt fingerprint other e → one = other ∧ d = e
  keyed {key : String} {e : ε} : a.CarriedAt fingerprint key e → Entity.logicKey? e = some key
  has {key : String} {e : ε} : a.CarriedAt fingerprint key e →
    a.shelf.has (.fingerprint fingerprint) = true
  find {key : String} {e : ε} : a.CarriedAt fingerprint key e →
    a.shelf.find? (.fingerprint fingerprint) = some e
  remove {key : String} {e : ε} : a.CarriedAt fingerprint key e →
    a.remove (.fingerprint fingerprint) = a.remove (.key key)
  compute {key : String} {e : ε} (f : Option ε → Option ε) : a.CarriedAt fingerprint key e →
    a.compute (.fingerprint fingerprint) f = a.compute (.key key) f
  has_none : (∀ key e, ¬ a.CarriedAt fingerprint key e) →
    a.shelf.has (.fingerprint fingerprint) = false
  find_none : (∀ key e, ¬ a.CarriedAt fingerprint key e) →
    a.shelf.find? (.fingerprint fingerprint) = none
  remove_none : (∀ key e, ¬ a.CarriedAt fingerprint key e) →
    a.remove (.fingerprint fingerprint) = (none, a.store)
  compute_none (f : Option ε → Option ε) : (∀ key e, ¬ a.CarriedAt fingerprint key e) →
    a.compute (.fingerprint fingerprint) f = match f none with
      | some e =>
          if Entity.isEffective e then
            ((a.overwrite e).1.map fun _ => (), (a.overwrite e).2)
          else (.ok (), a.store)
      | none => (.ok (), a.store)

/-! ## Following the key -/

/-- The operations of an access look for a key before they do anything else. -/
structure FollowsKey (a : Access ε) : Prop where
  remove_eq (lookup : Lookup) : a.remove lookup = match a.shelf.keyOf? lookup with
    | some key => a.remove (.key key)
    | none => (none, a.store)
  compute_eq (lookup : Lookup) (f : Option ε → Option ε) : a.compute lookup f =
    match f (a.shelf.find? lookup) with
    | some e => ((a.overwrite e).1.map fun _ => (), (a.overwrite e).2)
    | none => (.ok (), (a.remove lookup).2)
  ineffective {e : ε} : Entity.isEffective e = false → a.overwrite e = (.ok false, a.store)

variable {a : Access ε} {fingerprint key : String} {e : ε}

/-- What removing and overwriting leave alone, every operation does. -/
theorem FollowsKey.leaves (h : a.FollowsKey) {part : Store → α}
    (remove : ∀ lookup, part (a.remove lookup).2 = part a.store)
    (overwrite : ∀ e, part (a.overwrite e).2 = part a.store) : a.Leaves part where
  remove := remove
  compute lookup f := by
    rw [h.compute_eq]
    split
    · exact overwrite _
    · exact remove lookup
  overwrite := overwrite

theorem CarriedAt.keyOf? (consistent : a.shelf.Consistent) (c : a.CarriedAt fingerprint key e) :
    a.shelf.keyOf? (.fingerprint fingerprint) = some key :=
  consistent.holds.mpr ⟨e, c.held, c.carries⟩

/-- Lookups that lead to one key find the same. -/
theorem CarriedAt.find? (consistent : a.shelf.Consistent) (c : a.CarriedAt fingerprint key e) :
    a.shelf.find? (.fingerprint fingerprint) = a.shelf.find? (.key key) := by
  rw [Shelf.find?, c.keyOf? consistent]
  rfl

theorem keyOf?_of_uncarried (consistent : a.shelf.Consistent)
    (nobody : ∀ key e, ¬ a.CarriedAt fingerprint key e) :
    a.shelf.keyOf? (.fingerprint fingerprint) = none := by
  cases leads : a.shelf.keyOf? (.fingerprint fingerprint) with
  | none => rfl
  | some key =>
      obtain ⟨e, held, carries⟩ := consistent.holds.mp leads
      exact absurd ⟨held, carries⟩ (nobody key e)

theorem FollowsKey.remove_carried (h : a.FollowsKey) (consistent : a.shelf.Consistent)
    (c : a.CarriedAt fingerprint key e) :
    a.remove (.fingerprint fingerprint) = a.remove (.key key) := by
  rw [h.remove_eq, c.keyOf? consistent]

theorem FollowsKey.remove_uncarried (h : a.FollowsKey) (consistent : a.shelf.Consistent)
    (nobody : ∀ key e, ¬ a.CarriedAt fingerprint key e) :
    a.remove (.fingerprint fingerprint) = (none, a.store) := by
  rw [h.remove_eq, keyOf?_of_uncarried consistent nobody]

theorem find?_uncarried (consistent : a.shelf.Consistent)
    (nobody : ∀ key e, ¬ a.CarriedAt fingerprint key e) :
    a.shelf.find? (.fingerprint fingerprint) = none := by
  rw [Shelf.find?, keyOf?_of_uncarried consistent nobody]
  rfl

/-- Where the holders of a shelf mirror its entities, the two ways to an entity agree. -/
theorem FollowsKey.agreesAt (h : a.FollowsKey) (consistent : a.shelf.Consistent)
    (fingerprint : String) : a.AgreesAt fingerprint where
  unique {one other d e} atOne atOther := by
    obtain rfl : one = other := consistent.fingerprint_unique atOne.held atOther.held
      atOne.carries atOther.carries
    exact ⟨rfl, Option.some_inj.mp (atOne.held.symm.trans atOther.held)⟩
  keyed c := consistent.keyed c.held
  has c := Option.isSome_iff_exists.mpr ⟨_, c.keyOf? consistent⟩
  find c := (c.find? consistent).trans c.held
  remove c := h.remove_carried consistent c
  compute f c := by
    rw [h.compute_eq, h.compute_eq, c.find? consistent, h.remove_carried consistent c]
  has_none nobody :=
    Option.isSome_eq_false_iff.mpr (Option.isNone_iff_eq_none.mpr
      (keyOf?_of_uncarried consistent nobody))
  find_none nobody := find?_uncarried consistent nobody
  remove_none nobody := h.remove_uncarried consistent nobody
  compute_none f nobody := by
    rw [h.compute_eq, find?_uncarried consistent nobody, h.remove_uncarried consistent nobody]
    cases f none with
    | none => rfl
    | some e =>
        dsimp only
        split
        · rfl
        · rename_i ineffective
          rw [h.ineffective (Bool.eq_false_iff.mpr ineffective)]
          rfl

end Access

/-! ## Nodes and events -/

variable {s : Store}

theorem followsKey_nodeAccess (c : Catalog) (s : Store) : (nodeAccess c s).FollowsKey where
  remove_eq _ := rfl
  compute_eq lookup f := by
    cases made : f (s.nodes.find? lookup) <;> simp only [nodeAccess, computeNode, made]
  ineffective {n} ineffective := by
    have leftOut : s.nodes.verdict c n true = .ok none :=
      Shelf.verdict_of_ineffective ineffective
    simp only [nodeAccess, addNode_eq, leftOut]

theorem followsKey_eventAccess (c : Catalog) (s : Store) : (eventAccess c s).FollowsKey where
  remove_eq _ := rfl
  compute_eq lookup f := by
    cases made : f (s.events.find? lookup) <;> simp only [eventAccess, computeEvent, made]
  ineffective {e} ineffective := by
    have leftOut : s.events.verdict c e true = .ok none :=
      Shelf.verdict_of_ineffective ineffective
    simp only [eventAccess, addEvent_eq, leftOut]

/-- The part of a store that is about events. -/
def eventPart (s : Store) : Shelf Event × TypeGroups × Adjacency :=
  (s.events, s.groups, s.adjacency)

theorem nodeAccess_leaves_events (c : Catalog) (s : Store) :
    (nodeAccess c s).Leaves eventPart := by
  refine (followsKey_nodeAccess c s).leaves (fun lookup => ?_) fun n => ?_
  · simp only [nodeAccess, removeNode]
    split <;> rfl
  · simp only [nodeAccess, addNode_eq]
    split <;> rfl

theorem eventAccess_leaves_nodes (c : Catalog) (s : Store) :
    (eventAccess c s).Leaves Store.nodes := by
  refine (followsKey_eventAccess c s).leaves (fun lookup => ?_) fun e => ?_
  · simp only [eventAccess, removeEvent]
    split
    · exact nodes_removeEventAt s _
    · rfl
  · simp only [eventAccess, addEvent_eq]
    split
    · rfl
    · rfl
    · exact nodes_withEvent s _ _

theorem Reached.consistent (h : Reached Action.RepointsApart s) : s.Consistent := by
  induction h with
  | empty => exact .empty
  | step c action _ apart ih => exact ih.run c action apart

/-- In every reached store, and whatever the catalog says by now, a fingerprint gives the same
    access as the key of the one entity that carries it, and none where nobody does. Access to
    nodes leaves all that is about events as it is, and access to events leaves the nodes. -/
theorem Reached.access_by_fingerprint (h : Reached Action.RepointsApart s) (c : Catalog)
    (fingerprint : String) :
    (nodeAccess c s).AgreesAt fingerprint ∧ (eventAccess c s).AgreesAt fingerprint ∧
      (nodeAccess c s).Leaves eventPart ∧ (eventAccess c s).Leaves Store.nodes :=
  ⟨(followsKey_nodeAccess c s).agreesAt h.consistent.nodes fingerprint,
    (followsKey_eventAccess c s).agreesAt h.consistent.events fingerprint,
    nodeAccess_leaves_events c s, eventAccess_leaves_nodes c s⟩

/-- A house is removed and changed by its fingerprint as by its key, also when the catalog is
    gone; a text that is no fingerprint leads nowhere. -/
theorem house_got_at :
    let s := (Store.empty.addNode houseCatalog (houseAt "K" (.integer 3) "a") false).2
    let fingerprint := Digest.Sha256.ofText "HouseK3"
    (s.nodes.find? (.fingerprint fingerprint)).bind Entity.logicKey? = some "Housea" ∧
      s.removeNode (.fingerprint fingerprint) = s.removeNode (.key "Housea") ∧
      (∀ f, s.computeNode .empty (.fingerprint fingerprint) f =
        s.computeNode .empty (.key "Housea") f) ∧
      s.nodes.has (.fingerprint "Housea") = false := by
  intro s fingerprint
  have reached : Reached Action.RepointsApart s :=
    .step houseCatalog (.addNode (houseAt "K" (.integer 3) "a") false) .empty trivial
  have agrees (u : String) := (reached.access_by_fingerprint .empty u).1
  have carries : (s.nodes.get? "Housea").bind Entity.fingerprint = some fingerprint := by
    simp only [s, houseCatalog_eq]
    decide +kernel
  obtain ⟨n, held, carries⟩ := Option.bind_eq_some_iff.mp carries
  have carried : (nodeAccess .empty s).CarriedAt fingerprint "Housea" n := ⟨held, carries⟩
  refine ⟨?_, (agrees fingerprint).remove carried,
    fun f => (agrees fingerprint).compute f carried, ?_⟩
  · exact Option.bind_eq_some_iff.mpr
      ⟨n, (agrees fingerprint).find carried, (agrees fingerprint).keyed carried⟩
  · refine (agrees "Housea").has_none fun key e other => ?_
    have alone : s.nodes.values.map Entity.fingerprint = [some fingerprint] := by
      simp only [s, houseCatalog_eq]
      decide +kernel
    have listed : Entity.fingerprint e ∈ s.nodes.values.map Entity.fingerprint :=
      List.mem_map_of_mem (Shelf.mem_values_iff.mpr ⟨key, other.held⟩)
    rw [alone, other.carries, List.mem_singleton, Option.some_inj] at listed
    exact absurd listed (by decide +kernel)

end Store

end SchemaGraph
