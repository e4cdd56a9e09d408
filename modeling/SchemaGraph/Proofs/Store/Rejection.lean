import SchemaGraph.Proofs.Store.Adding
import SchemaGraph.Proofs.Store.Repointing

/-! # All or nothing

An operation on one entity that does not do what it was asked for leaves the store exactly
as it was. All checks, down to the last event that would follow a node, come before the
first change.
-/

namespace SchemaGraph.Store

/-- A node stands under its own key, with its present fingerprint. -/
def HoldsNode (c : Catalog) (s : Store) (n : Node) : Prop :=
  ∃ key stored, Entity.logicKey? n = some key ∧ Entity.stamped c n = .ok stored ∧
    s.nodes.get? key = some stored

/-- An event stands under its own key, with its present fingerprint and membership. -/
def HoldsEvent (c : Catalog) (s : Store) (e : Event) : Prop :=
  ∃ key stored, Entity.logicKey? e = some key ∧ Entity.stamped c e = .ok stored ∧
    s.events.get? key = some (stored.withMembership c)

/-- Each operation on one entity either does all it was asked for or changes nothing. -/
structure AllOrNothing (c : Catalog) (s : Store) : Prop where
  addNode (n : Node) (overwrite : Bool) : match s.addNode c n overwrite with
    | (.ok true, s') => s'.HoldsNode c n
    | (_, s') => s' = s
  addEvent (e : Event) (overwrite : Bool) : match s.addEvent c e overwrite with
    | (.ok true, s') => s'.HoldsEvent c e
    | (_, s') => s' = s
  /-- What is to be overwritten is still there when the new node is refused. -/
  overwriteNode (n : Node) : (∃ cause, s.addNode c n true = (.error cause, s)) ↔ s.nodes.Refuses c n
  overwriteEvent (e : Event) :
    (∃ cause, s.addEvent c e true = (.error cause, s)) ↔ s.events.Refuses c e
  updateNode (sourceKey sourceId : String) (target : Node) :
    match s.updateNode c sourceKey sourceId target with
    | (.ok _, s') => s'.HoldsNode c target ∧
        (Entity.logicKey? target ≠ some sourceKey → s'.nodes.get? sourceKey = none)
    | (.error _, s') => s' = s
  updateEvent (sourceKey sourceId : String) (target : Event) :
    match s.updateEvent c sourceKey sourceId target with
    | (.ok _, s') => s'.HoldsEvent c target ∧
        (Entity.logicKey? target ≠ some sourceKey → s'.events.get? sourceKey = none)
    | (.error _, s') => s' = s
  computeNode (lookup : Lookup) (f : Option Node → Option Node) :
    match f (s.nodes.find? lookup), s.computeNode c lookup f with
    | some n, (.ok (), s') => if Entity.isEffective n then s'.HoldsNode c n else s' = s
    | some _, (.error _, s') => s' = s
    | none, (answer, s') => answer = .ok () ∧ s'.nodes.find? lookup = none
  computeEvent (lookup : Lookup) (f : Option Event → Option Event) :
    match f (s.events.find? lookup), s.computeEvent c lookup f with
    | some e, (.ok (), s') => if Entity.isEffective e then s'.HoldsEvent c e else s' = s
    | some _, (.error _, s') => s' = s
    | none, (answer, s') => answer = .ok () ∧ s'.events.find? lookup = none

variable {c : Catalog} {s : Store}

theorem holdsNode_withNode {n taken : Node} {key : String} {overwrite : Bool}
    (decided : s.nodes.verdict c n overwrite = .ok (some (key, taken))) :
    (s.withNode key taken).HoldsNode c n := by
  obtain ⟨keyed, _, admission⟩ := Shelf.verdict_eq_some_iff.mp decided
  exact ⟨key, taken, keyed, (Shelf.admitted_eq_ok_iff.mp admission).1,
    (get?_nodes_withNode ..).trans (if_pos rfl)⟩

theorem holdsEvent_withEvent {e taken : Event} {key : String} {overwrite : Bool}
    (decided : s.events.verdict c e overwrite = .ok (some (key, taken))) :
    (s.withEvent key (taken.withMembership c)).HoldsEvent c e := by
  obtain ⟨keyed, _, admission⟩ := Shelf.verdict_eq_some_iff.mp decided
  exact ⟨key, taken, keyed, (Shelf.admitted_eq_ok_iff.mp admission).1,
    (get?_events_withEvent ..).trans (if_pos rfl)⟩

/-- What may be overwritten is in nobody's way, so only what is not effective is left out. -/
theorem isEffective_of_verdict {ε : Type} [Entity ε] {shelf : Shelf ε} {e : ε} :
    (shelf.verdict c e true = .ok none → Entity.isEffective e = false) ∧
      ∀ taken, shelf.verdict c e true = .ok (some taken) → Entity.isEffective e = true := by
  constructor
  · intro decided
    rcases Shelf.verdict_eq_none_iff.mp decided with unkeyed | ⟨overwrites, _⟩
    · rw [Bool.eq_false_iff, ne_eq, Entity.isEffective_iff]
      rintro ⟨key, keyed⟩
      exact absurd (unkeyed.symm.trans keyed) (by simp)
    · cases overwrites
  · rintro ⟨key, taken⟩ decided
    exact Entity.isEffective_iff.mpr ⟨key, (Shelf.verdict_eq_some_iff.mp decided).1⟩

theorem get?_of_replacement {ε : Type} [Entity ε] {shelf : Shelf ε} {sourceKey sourceId : String}
    {target : ε} {r : Shelf.Replacement ε} (final : ε → ε)
    (passed : shelf.replacement c sourceKey sourceId target = .ok r) :
    let after := shelf.replace sourceKey { r with target := final r.target }
    (∃ key stored, Entity.logicKey? target = some key ∧ Entity.stamped c target = .ok stored ∧
      after.get? key = some (final stored)) ∧
      (Entity.logicKey? target ≠ some sourceKey → after.get? sourceKey = none) := by
  obtain ⟨keyed, _, _, _, _, _, taken⟩ := Shelf.replacement_eq_ok_iff.mp passed
  simp only [Shelf.get?_replace]
  refine ⟨⟨r.key, r.target, keyed, (Shelf.admitted_eq_ok_iff.mp taken).1, if_pos rfl⟩, ?_⟩
  intro changed
  have different : sourceKey ≠ r.key := fun same => changed (same ▸ keyed)
  rw [if_neg different, if_pos trivial]

theorem Consistent.find?_removeNode (h : s.Consistent) (lookup : Lookup) :
    (s.removeNode lookup).2.nodes.find? lookup = none := by
  rw [Store.removeNode]
  split
  · rename_i key found
    exact h.nodes.find?_remove found
  · rename_i absent
    rw [Shelf.find?, absent, Option.bind_none]

theorem Consistent.find?_removeEvent (h : s.Consistent) (lookup : Lookup) :
    (s.removeEvent lookup).2.events.find? lookup = none := by
  rw [Store.removeEvent]
  split
  · rename_i key found
    rw [events_removeEventAt]
    exact h.events.find?_remove found
  · rename_i absent
    rw [Shelf.find?, absent, Option.bind_none]

/-- In a consistent store, each operation on one entity that fails, adds nothing or computes
    something that is not effective changes nothing. -/
theorem Consistent.all_or_nothing (h : s.Consistent) (c : Catalog) : s.AllOrNothing c where
  addNode n overwrite := by
    rw [addNode_eq]
    cases decided : s.nodes.verdict c n overwrite with
    | error cause => rfl
    | ok given =>
        rcases given with _ | ⟨key, taken⟩
        · rfl
        · exact holdsNode_withNode decided
  addEvent e overwrite := by
    rw [addEvent_eq]
    cases decided : s.events.verdict c e overwrite with
    | error cause => rfl
    | ok given =>
        rcases given with _ | ⟨key, taken⟩
        · rfl
        · exact holdsEvent_withEvent decided
  overwriteNode n := by
    rw [← Shelf.verdict_overwriting_eq_error_iff, addNode_eq]
    rcases s.nodes.verdict c n true with cause | _ | ⟨key, taken⟩ <;> simp
  overwriteEvent e := by
    rw [← Shelf.verdict_overwriting_eq_error_iff, addEvent_eq]
    rcases s.events.verdict c e true with cause | _ | ⟨key, taken⟩ <;> simp
  updateNode sourceKey sourceId target := by
    rcases updated : s.updateNode c sourceKey sourceId target with ⟨cause | stored, s'⟩
    · exact updateNode_eq_error updated
    · obtain ⟨r, passed, rfl, outcome⟩ := updateNode_eq_ok updated
      -- the moves of the events leave the nodes alone
      have nodes : s'.nodes = s.nodes.replace sourceKey r := by
        rcases outcome with ⟨_, rfl⟩ | ⟨_, moves, _, rfl⟩
        · rfl
        · exact nodes_applyMoves ..
      simp only [HoldsNode, nodes]
      exact get?_of_replacement id passed
  updateEvent sourceKey sourceId target := by
    rw [Store.updateEvent]
    cases passed : s.events.replacement c sourceKey sourceId target with
    | error cause => rfl
    | ok r => exact get?_of_replacement (Event.withMembership c) passed
  computeNode lookup f := by
    rw [Store.computeNode]
    cases f (s.nodes.find? lookup) with
    | none => exact ⟨rfl, h.find?_removeNode lookup⟩
    | some n =>
        dsimp only
        rw [addNode_eq]
        cases decided : s.nodes.verdict c n true with
        | error cause => rfl
        | ok given =>
            rcases given with _ | ⟨key, taken⟩
            · simp [isEffective_of_verdict.1 decided, Except.map]
            · simp [isEffective_of_verdict.2 _ decided, Except.map, holdsNode_withNode decided]
  computeEvent lookup f := by
    rw [Store.computeEvent]
    cases f (s.events.find? lookup) with
    | none => exact ⟨rfl, h.find?_removeEvent lookup⟩
    | some e =>
        dsimp only
        rw [addEvent_eq]
        cases decided : s.events.verdict c e true with
        | error cause => rfl
        | ok given =>
            rcases given with _ | ⟨key, taken⟩
            · simp [isEffective_of_verdict.1 decided, Except.map]
            · simp [isEffective_of_verdict.2 _ decided, Except.map, holdsEvent_withEvent decided]

/-- A catalog whose towns are told apart by a chain that leads nowhere. -/
def brokenChainCatalog : Catalog :=
  let town : NodeDefinition := { name := "Town", uniqueIndex := ["Town-Road"] }
  (Catalog.empty.putNode town false).toOption.getD .empty

/-- A town that is to be overwritten stays when the chain in its unique index fails. -/
theorem refused_town_stays :
    (roads [("a", "b")]).AllOrNothing brokenChainCatalog ∧
      ∃ cause, (roads [("a", "b")]).addNode brokenChainCatalog (.named "Town" "a") true =
        (.error cause, roads [("a", "b")]) := by
  have whole := (consistent_roads [("a", "b")]).all_or_nothing brokenChainCatalog
  have fails : (Entity.computeFingerprint brokenChainCatalog (.named "Town" "a" : Node)).isOk =
      false := by
    decide +kernel
  refine ⟨whole, (whole.overwriteNode _).mpr ⟨"Towna", by decide +kernel, Or.inl ?_⟩⟩
  cases computed : Entity.computeFingerprint brokenChainCatalog (.named "Town" "a" : Node) with
  | error cause => exact ⟨cause, rfl⟩
  | ok f =>
      rw [computed] at fails
      cases fails

end SchemaGraph.Store
