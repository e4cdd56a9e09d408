import SchemaGraph.Proofs.Entity.Coherence
import SchemaGraph.Proofs.Store.Identity

/-! # What stays up to date

An entity carries its fingerprint, and an event whether it is a membership, as they were when
they were last worked out. As long as the catalog stays the same, both stay what they would be
if they were worked out now.
-/

namespace SchemaGraph

/-- The event is marked as a membership exactly when the catalog gives its type between the
    types of its ends a definition that says so. -/
def Event.Marked (c : Catalog) (e : Event) : Prop :=
  e.membership = some ((e.definition? c).any EventDefinition.isMember)

namespace Shelf

variable {ε : Type} [Entity ε] {holds : ε → Prop} {s : Shelf ε}

omit [Entity ε] in
/-- Something holds of every entity of a shelf. -/
def All (holds : ε → Prop) (s : Shelf ε) : Prop :=
  ∀ ⦃key : String⦄ ⦃e : ε⦄, s.get? key = some e → holds e

omit [Entity ε] in
theorem All.empty : ({} : Shelf ε).All holds := by
  intro key e held
  cases held

theorem All.remove (h : s.All holds) (key : String) : (s.remove key).2.All holds := by
  intro other e held
  rw [get?_remove] at held
  exact h (Option.ite_none_left_eq_some.mp held).2

theorem All.put (h : s.All holds) {key : String} {e : ε} (new : holds e) :
    (s.put key e).All holds := by
  intro other d held
  have lookup := (s.entries.get?_insert key other e).symm.trans held
  split at lookup
  · exact Option.some_inj.mp lookup ▸ new
  · exact h lookup

theorem All.replace (h : s.All holds) {sourceKey : String} {r : Replacement ε}
    (new : holds r.target) : (s.replace sourceKey r).All holds := by
  intro key e held
  rw [get?_replace] at held
  split at held
  · exact Option.some_inj.mp held ▸ new
  · exact h (Option.ite_none_left_eq_some.mp held).2

omit [Entity ε] in
theorem All.mapValues (h : s.All holds) {change : ε → ε} (kept : ∀ e, holds e → holds (change e)) :
    All holds { s with entries := s.entries.mapValues change } := by
  intro key d held
  obtain ⟨e, before, rfl⟩ := Option.map_eq_some_iff.mp
    ((s.entries.get?_mapValues change key).symm.trans held)
  exact kept e (h before)

end Shelf

namespace Store

variable {c : Catalog} {s : Store} {ofNode : Node → Prop} {ofEvent : Event → Prop}

/-- Something holds of every node of a store, and something else of every event. -/
structure All (ofNode : Node → Prop) (ofEvent : Event → Prop) (s : Store) : Prop where
  nodes : s.nodes.All ofNode
  events : s.events.All ofEvent

/-- Something holds of all entities that are stamped for a store, and an operation does not
    change that. -/
structure OfStamped (c : Catalog) (ofNode : Node → Prop) (ofEvent : Event → Prop) : Prop where
  node {n taken : Node} : Entity.stamped c n = .ok taken → ofNode taken
  event {e taken : Event} : Entity.stamped c e = .ok taken → ofEvent (taken.withMembership c)
  nodeOperation (n : Node) (operation : Operation) :
    ofNode n → ofNode (Entity.setOperation n operation)
  eventOperation (e : Event) (operation : Operation) :
    ofEvent e → ofEvent (Entity.setOperation e operation)

/-- The steps take in only what has been stamped. -/
theorem OfStamped.kept (h : OfStamped c ofNode ofEvent) : KeptUnder c (All ofNode ofEvent) where
  empty := ⟨.empty, .empty⟩
  addNode {s} n overwrite before := by
    rw [addNode_eq]
    split
    · exact before
    · exact before
    · rename_i key taken decided
      obtain ⟨_, _, admission⟩ := Shelf.verdict_eq_some_iff.mp decided
      have new := h.node (Shelf.admitted_eq_ok_iff.mp admission).1
      exact ⟨(before.nodes.remove key).put new, before.events⟩
  removeNodeAt key before := ⟨before.nodes.remove key, before.events⟩
  clearNodes before := ⟨.empty, before.events⟩
  addEvent {s} e overwrite before := by
    rw [addEvent_eq]
    split
    · exact before
    · exact before
    · rename_i key taken decided
      obtain ⟨_, _, admission⟩ := Shelf.verdict_eq_some_iff.mp decided
      have new := h.event (Shelf.admitted_eq_ok_iff.mp admission).1
      refine ⟨?_, ?_⟩
      · simp only [withEvent, Store.index, nodes_removeEventAt]
        exact before.nodes
      · simp only [withEvent, events_removeEventAt]
        exact (before.events.remove key).put new
  removeEventAt {s} key before := by
    refine ⟨?_, ?_⟩
    · rw [nodes_removeEventAt]
      exact before.nodes
    · rw [events_removeEventAt]
      exact before.events.remove key
  updateEvent {s} sourceKey sourceId target before := by
    unfold Store.updateEvent
    split
    · exact before
    · rename_i r passed
      obtain ⟨_, _, _, _, _, _, taken⟩ := Shelf.replacement_eq_ok_iff.mp passed
      exact ⟨before.nodes, before.events.replace (h.event (Shelf.admitted_eq_ok_iff.mp taken).1)⟩
  clearEvents before := ⟨before.nodes, .empty⟩
  setOperation operation before :=
    ⟨before.nodes.mapValues fun n => h.nodeOperation n operation,
      before.events.mapValues fun e => h.eventOperation e operation⟩

/-- An update of a node brings in the node and what becomes of the events at it. -/
theorem OfStamped.updateNode (h : OfStamped c ofNode ofEvent) (before : s.All ofNode ofEvent)
    {sourceKey sourceId : String} {target : Node}
    (moved : ∀ r, s.nodes.replacement c sourceKey sourceId target = .ok r →
      ∀ key old new, s.events.get? key = some old → Led sourceKey target old new →
        Entity.stamped c (repoint sourceKey target old) = .ok new → ofEvent new) :
    (s.updateNode c sourceKey sourceId target).2.All ofNode ofEvent := by
  rcases updated : s.updateNode c sourceKey sourceId target with ⟨cause | stored, s'⟩
  · rw [updateNode_eq_error updated]
    exact before
  · obtain ⟨r, passed, -, outcome⟩ := updateNode_eq_ok updated
    obtain ⟨keyed, _, _, _, _, _, taken⟩ := Shelf.replacement_eq_ok_iff.mp passed
    have nodes : (s.nodes.replace sourceKey r).All ofNode :=
      before.nodes.replace (h.node (Shelf.admitted_eq_ok_iff.mp taken).1)
    rcases outcome with ⟨_, rfl⟩ | ⟨_, moves, planned, rfl⟩
    · exact ⟨nodes, before.events⟩
    · refine ⟨by rw [nodes_applyMoves]; exact nodes, fun key e held => ?_⟩
      rcases Planned.held_cases (s := { s with nodes := s.nodes.replace sourceKey r }) planned
        held with ⟨m, inside, rfl, rfl⟩ | still
      · have sound := planned.sound inside
        exact moved r passed m.oldKey m.old m.event sound.held (planned.led keyed inside)
          sound.stamping
      · exact before.events still

/-! ## Fingerprints -/

theorem fresh_ofStamped (c : Catalog) : OfStamped c (Entity.Fresh c) (Entity.Fresh c) where
  node := Entity.fresh_of_stamped
  -- the fingerprint does not look at the membership
  event {_ taken} stamping := (Entity.fresh_of_stamped stamping : Entity.Fresh c taken)
  nodeOperation _ operation fresh := fresh.setOperation operation
  eventOperation _ operation fresh := fresh.setOperation operation

/-- Every entity of the store carries the fingerprint that is computed for it. -/
abbrev Fresh (c : Catalog) (s : Store) : Prop := s.All (Entity.Fresh c) (Entity.Fresh c)

theorem Fresh.run (h : s.Fresh c) (action : Action) : (action.run c s).Fresh c := by
  refine (fresh_ofStamped c).kept.run action h fun sourceKey sourceId target _ => ?_
  refine (fresh_ofStamped c).updateNode h fun r _ key old new _ _ stamping => ?_
  exact Entity.fresh_of_stamped stamping

/-! ## Memberships -/

/-- The nodes and the ends of events that a store names, each by its type and identifier. -/
def named (s : Store) : List Endpoint :=
  s.nodes.values.map Endpoint.ofNode ++ s.events.values.flatMap fun e => [e.left, e.right]

/-- No two of the nodes and ends have one logic identifier. -/
def ToldApart (named : List Endpoint) : Prop :=
  ∀ p ∈ named, ∀ q ∈ named, p.logicKey?.isSome = true → p.logicKey? = q.logicKey? → p = q

instance (named : List Endpoint) : Decidable (ToldApart named) :=
  inferInstanceAs (Decidable (∀ p ∈ named, ∀ q ∈ named, _ → _ → p = q))

theorem marked_ofStamped (c : Catalog) : OfStamped c (fun _ => True) (Event.Marked c) where
  node _ := trivial
  event _ := rfl
  nodeOperation _ _ _ := trivial
  eventOperation _ _ marked := marked

/-- An event at a node keeps its definition when it is led to another node of the same type,
    if it names the node itself. -/
theorem Led.definition?_eq {sourceKey : String} {source target : Node} {old new : Event}
    (led : Led sourceKey target old new) (sameType : source.core.typeName = target.core.typeName)
    (left : old.leftKey? = some sourceKey → old.left = .ofNode source)
    (right : old.rightKey? = some sourceKey → old.right = .ofNode source) :
    new.definition? c = old.definition? c := by
  have leftType : new.left.typeName = old.left.typeName := by
    rw [led.left]
    split
    · rename_i atLeft
      rw [left atLeft]
      exact sameType.symm
    · rfl
  have rightType : new.right.typeName = old.right.typeName := by
    rw [led.right]
    split
    · rename_i atRight
      rw [right atRight]
      exact sameType.symm
    · rfl
  simp only [Event.definition?, Event.definitionKey?, led.typeName, leftType, rightType]

/-- Every event of the store is marked as the catalog says. -/
abbrev Marked (c : Catalog) (s : Store) : Prop := s.All (fun _ => True) (Event.Marked c)

theorem Marked.run (h : s.Marked c) (keyed : s.Keyed) (apart : ToldApart s.named)
    (action : Action) : (action.run c s).Marked c := by
  refine (marked_ofStamped c).kept.run action h fun sourceKey sourceId target _ => ?_
  refine (marked_ofStamped c).updateNode h fun r passed key old new held led _ => ?_
  obtain ⟨_, _, isSource, _, _, sameType, _⟩ := Shelf.replacement_eq_ok_iff.mp passed
  have sourceNamed : Endpoint.ofNode r.source ∈ s.named :=
    List.mem_append_left _ (List.mem_map_of_mem (Shelf.mem_values_iff.mpr ⟨sourceKey, isSource⟩))
  have sourceKeyed : (Endpoint.ofNode r.source).logicKey? = some sourceKey := keyed.nodes isSource
  have endsNamed {p : Endpoint} (isEnd : p ∈ [old.left, old.right]) : p ∈ s.named :=
    List.mem_append_right _ (List.mem_flatMap.mpr
      ⟨old, Shelf.mem_values_iff.mpr ⟨key, held⟩, isEnd⟩)
  have isSource {p : Endpoint} (isEnd : p ∈ [old.left, old.right])
      (there : p.logicKey? = some sourceKey) : p = .ofNode r.source :=
    apart p (endsNamed isEnd) _ sourceNamed (by rw [there]; rfl) (there.trans sourceKeyed.symm)
  have sameDefinition : new.definition? c = old.definition? c := by
    have ofOld := keyed.events held
    refine led.definition?_eq sameType (fun atLeft => isSource (by simp) ?_)
      fun atRight => isSource (by simp) ?_
    · rw [← Event.leftKey?_of_logicKey? ofOld, atLeft]
    · rw [← Event.rightKey?_of_logicKey? ofOld, atRight]
  rw [Event.Marked, led.membership, sameDefinition]
  exact h.events held

/-! ## Runs under one catalog -/

/-- The store that actions make of another one while the catalog stays the same. -/
def runAll (c : Catalog) (s : Store) (actions : List Action) : Store :=
  actions.foldl (Action.run c) s

/-- Whenever an action of a run gives events other keys, it gives them keys apart from each
    other. -/
def RunsApart (c : Catalog) : Store → List Action → Prop
  | _, [] => True
  | s, action :: rest => action.RepointsApart c s ∧ RunsApart c (action.run c s) rest

/-- The nodes and ends that are named in the store before a run or in a store on the way. -/
def namedInRun (c : Catalog) : Store → List Action → List Endpoint
  | s, [] => s.named
  | s, action :: rest => s.named ++ namedInRun c (action.run c s) rest

theorem consistent_runAll (actions : List Action) (h : s.Consistent)
    (apart : RunsApart c s actions) : (runAll c s actions).Consistent := by
  induction actions generalizing s with
  | nil => exact h
  | cons action rest ih => exact ih (h.run c action apart.1) apart.2

theorem fresh_runAll (actions : List Action) (h : s.Fresh c) :
    (runAll c s actions).Fresh c := by
  induction actions generalizing s with
  | nil => exact h
  | cons action rest ih => exact ih (h.run action)

theorem marked_runAll (actions : List Action) (h : s.Marked c) (keyed : s.Keyed)
    (apart : ToldApart (namedInRun c s actions)) : (runAll c s actions).Marked c := by
  induction actions generalizing s with
  | nil => exact h
  | cons action rest ih =>
      have here : ToldApart s.named := fun p first q second =>
        apart p (List.mem_append_left _ first) q (List.mem_append_left _ second)
      have later : ToldApart (namedInRun c (action.run c s) rest) := fun p first q second =>
        apart p (List.mem_append_right _ first) q (List.mem_append_right _ second)
      exact ih (h.run keyed here action) (keyed.run c action) later

/-- No two entities of a shelf have one computed fingerprint. -/
def DigestsApart {ε : Type} [Entity ε] (c : Catalog) (shelf : Shelf ε) : Prop :=
  ∀ ⦃one other : String⦄ ⦃d e : ε⦄ ⦃digest : String⦄, shelf.get? one = some d →
    shelf.get? other = some e → Entity.computeFingerprint c d = .ok (some digest) →
    Entity.computeFingerprint c e = .ok (some digest) → one = other

theorem digestsApart {ε : Type} [Entity ε] {shelf : Shelf ε} (h : shelf.Consistent)
    (fresh : shelf.All (Entity.Fresh c)) : DigestsApart c shelf := by
  intro one other d e digest atOne atOther ofOne ofOther
  have carried {key : String} {e : ε} (held : shelf.get? key = some e)
      (computed : Entity.computeFingerprint c e = .ok (some digest)) :
      Entity.fingerprint e = some digest := Except.ok.inj ((fresh held).symm.trans computed)
  exact h.fingerprint_unique atOne atOther (carried atOne ofOne) (carried atOther ofOther)

/-- After any run under one catalog, every entity carries the fingerprint that is computed for
    it, computed fingerprints tell nodes as well as events apart, and if logic identifiers told
    apart what the stores of the run named, every event is marked as the catalog says. -/
theorem runAll_current (c : Catalog) (actions : List Action)
    (apart : RunsApart c .empty actions) :
    let s := runAll c .empty actions
    (∀ n ∈ s.nodes.values, Entity.Fresh c n) ∧ (∀ e ∈ s.events.values, Entity.Fresh c e) ∧
      DigestsApart c s.nodes ∧ DigestsApart c s.events ∧
      (ToldApart (namedInRun c .empty actions) → ∀ e ∈ s.events.values, e.Marked c) := by
  intro s
  have consistent : s.Consistent := consistent_runAll actions .empty apart
  have fresh : s.Fresh c := fresh_runAll actions (fresh_ofStamped c).kept.empty
  refine ⟨fun n held => ?_, fun e held => ?_, digestsApart consistent.nodes fresh.nodes,
    digestsApart consistent.events fresh.events, fun told e held => ?_⟩
  · obtain ⟨key, held⟩ := Shelf.mem_values_iff.mp held
    exact fresh.nodes held
  · obtain ⟨key, held⟩ := Shelf.mem_values_iff.mp held
    exact fresh.events held
  · obtain ⟨key, held⟩ := Shelf.mem_values_iff.mp held
    have marked := marked_runAll actions (marked_ofStamped c).kept.empty (Keyed.kept c).empty told
    exact marked.events held

/-- Clubs and their members. -/
def clubCatalog : Catalog :=
  let joins : EventDefinition := { key := ⟨"Joins", "Person", "Club"⟩, isMember := true }
  let built := do
    let c ← Catalog.empty.putNode { name := "Person", uniqueIndex := ["mail"] } false
    let c ← c.putNode { name := "Club" } false
    c.putEvent joins false
  built.toOption.getD .empty

/-- A person joins a club, and gets another name: the membership moves along and is still one. -/
theorem renamed_member_current :
    let join := Event.between "Joins" "j" (.named "Person" "a") (.named "Club" "k")
    let actions : List Action := [.addNode (.named "Person" "a") false,
      .addNode (.named "Club" "k") false, .addEvent join false,
      .updateNode "Persona" "a" (.named "Person" "b")]
    let s := runAll clubCatalog .empty actions
    s.events.entries.keys = ["JoinsbPersonkClubj"] ∧ DigestsApart clubCatalog s.nodes ∧
      ∀ e ∈ s.events.values, e.Marked clubCatalog ∧ e.membership = some true := by
  intro join actions s
  have apart : RunsApart clubCatalog .empty actions :=
    ⟨trivial, trivial, trivial, fun _ _ => by decide +kernel, trivial⟩
  have told : ToldApart (namedInRun clubCatalog .empty actions) := by decide +kernel
  obtain ⟨_, _, digests, _, marked⟩ := runAll_current clubCatalog actions apart
  have isMember : ∀ e ∈ s.events.values, e.membership = some true := by decide +kernel
  exact ⟨by decide +kernel, digests, fun e held => ⟨marked told e held, isMember e held⟩⟩

end Store

end SchemaGraph
