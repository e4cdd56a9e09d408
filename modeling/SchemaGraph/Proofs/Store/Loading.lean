import SchemaGraph.Proofs.Store.Bulk
import SchemaGraph.Proofs.Store.Intake
import SchemaGraph.Proofs.Store.Reached
import SchemaGraph.Store.Document

/-! # Loading

A document is not trusted. Of its entries the first one counts under each logic identifier, and
fingerprints and memberships are computed anew, whatever the document says of them.
-/

namespace SchemaGraph

namespace Shelf

variable {ε : Type} [Entity ε] {c : Catalog} {entries : List (String × ε)}

/-- The effective ones of the entities that are the first with their logic identifier. -/
def kept (es : List ε) : List (String × ε) := Entries.firsts (es.filterMap Entity.keyed?)

theorem newcomers_empty (es : List ε) : ({} : Shelf ε).newcomers es = kept es := by
  have all : ∀ entry ∈ es.filterMap Entity.keyed?, (!({} : Shelf ε).contains entry.1) = true :=
    fun _ _ => rfl
  rw [newcomers, kept, List.filter_eq_self.mpr all]

/-- Entries that cannot all be loaded: the fingerprint of one cannot be computed, or two have the
    same one. -/
inductive Clash (c : Catalog) (entries : List (String × ε)) : Prop
  | uncomputable {entry : String × ε} {cause : EntityError} (inside : entry ∈ entries)
      (fails : Entity.computeFingerprint c entry.2 = .error cause)
  | shared {one other : String × ε} {digest : String} (first : one ∈ entries)
      (second : other ∈ entries) (different : one.1 ≠ other.1)
      (ofOne : Entity.computeFingerprint c one.2 = .ok (some digest))
      (ofOther : Entity.computeFingerprint c other.2 = .ok (some digest))

theorem obstacle_empty_iff : ({} : Shelf ε).Obstacle c entries ↔ Clash c entries := by
  constructor
  · intro obstacle
    cases obstacle with
    | uncomputable inside fails => exact .uncomputable inside fails
    | carried _ _ carries _ =>
        obtain ⟨_, held, _⟩ := carries
        cases held
    | shared first second different ofOne ofOther =>
        exact .shared first second different ofOne ofOther
  · intro clash
    cases clash with
    | uncomputable inside fails => exact .uncomputable inside fails
    | shared first second different ofOne ofOther =>
        exact .shared first second different ofOne ofOther

/-- A new shelf with entities taken in one after the other, if none fails. -/
def filled (c : Catalog) (final : ε → ε) (es : List ε) : Except StoreError (Shelf ε) :=
  match ({} : Shelf ε).addAll c final es with
  | (.ok (), s) => .ok s
  | (.error cause, _) => .error cause

theorem filled_eq_ok_iff {final : ε → ε} {es : List ε} {s : Shelf ε} :
    filled c final es = .ok s ↔ ({} : Shelf ε).addAll c final es = (.ok (), s) := by
  rw [filled]
  rcases ({} : Shelf ε).addAll c final es with ⟨cause | _, t⟩ <;> simp

theorem filled_eq_error_iff [LawfulEntity ε] {final : ε → ε} (light : Light final)
    {es : List ε} : (∃ cause, filled c final es = .error cause) ↔ Clash c (kept es) := by
  rw [← obstacle_empty_iff, ← newcomers_empty, ← addAll_eq_error_iff .empty light, filled]
  rcases ({} : Shelf ε).addAll c final es with ⟨cause | _, t⟩ <;> simp

theorem entries_filled [LawfulEntity ε] {final : ε → ε} (light : Light final) {es : List ε}
    {s : Shelf ε} (done : filled c final es = .ok s) :
    s.entries.entries = (kept es).map (settled c final) := by
  rw [entries_addAll .empty light (filled_eq_ok_iff.mp done), newcomers_empty]
  rfl

end Shelf

/-! ## What is not trusted -/

/-- The node without the fingerprint that it comes with. -/
def Node.unstamped (n : Node) : Node := { n with core := n.core.stale }

/-- The event without the membership that it comes with. -/
def Event.unmarked (e : Event) : Event := { e with membership := none }

/-- The event without both the membership and the fingerprint that it comes with. -/
def Event.unstamped (e : Event) : Event := e.unmarked.detached

/-- The document without fingerprints and memberships. -/
def DataDocument.unstamped (d : DataDocument) : DataDocument :=
  ⟨d.nodes.map Node.unstamped, d.events.mapValues fun events => events.map Event.unstamped⟩

/-- All events of the document, group by group. -/
def DataDocument.listedEvents (d : DataDocument) : List Event := d.events.values.flatten

theorem DataDocument.listedEvents_unstamped (d : DataDocument) :
    d.unstamped.listedEvents = d.listedEvents.map Event.unstamped := by
  have values : d.unstamped.events.values = d.events.values.map (List.map Event.unstamped) := by
    simp only [OrderedMap.values, DataDocument.unstamped, OrderedMap.mapValues, List.map_map]
    rfl
  rw [listedEvents, values, listedEvents, List.map_flatten]

namespace Store

variable {c : Catalog} {s : Store} {d : DataDocument}

theorem addNode_unstamped (c : Catalog) (s : Store) (n : Node) (overwrite : Bool) :
    s.addNode c n.unstamped overwrite = s.addNode c n overwrite :=
  rfl

/-- Whether an event is admitted does not depend on its membership, which stays what it was. -/
theorem admitted_unstamped (c : Catalog) (shelf : Shelf Event) (key : String) (e : Event) :
    shelf.admitted c key key e.unstamped = (shelf.admitted c key key e).map Event.unmarked := by
  have stamping : Entity.stamped c e.unstamped = (Entity.stamped c e).map Event.unmarked := by
    have computed : Entity.computeFingerprint c e.unstamped = Entity.computeFingerprint c e := rfl
    rw [Entity.stamped, Entity.stamped, computed]
    cases Entity.computeFingerprint c e <;> rfl
  rw [Shelf.admitted, Shelf.admitted, stamping]
  cases Entity.stamped c e with
  | error cause => rfl
  | ok taken =>
      have carried : Entity.fingerprint taken.unmarked = Entity.fingerprint taken := rfl
      simp only [Except.map, Except.mapError, bind, Except.bind, carried]
      split
      · split <;> rfl
      · rfl

theorem addEvent_unstamped (c : Catalog) (s : Store) (e : Event) (overwrite : Bool) :
    s.addEvent c e.unstamped overwrite = s.addEvent c e overwrite := by
  have sameKey : Entity.logicKey? e.unstamped = Entity.logicKey? e := rfl
  rw [addEvent, addEvent, sameKey]
  cases Entity.logicKey? e with
  | none => rfl
  | some key =>
      -- the catalog gives the membership anew
      simp only [admitted_unstamped]
      cases s.events.admitted c key key e <;> rfl

theorem addNodes_unstamped (nodes : List Node) (s : Store) :
    s.addNodes c (nodes.map Node.unstamped) = s.addNodes c nodes := by
  induction nodes generalizing s with
  | nil => rfl
  | cons n rest ih =>
      rw [List.map_cons, addNodes, addNodes, addNode_unstamped]
      rcases s.addNode c n false with ⟨cause | answer, s'⟩
      · rfl
      · exact ih s'

theorem addEvents_unstamped (events : List Event) (s : Store) :
    s.addEvents c (events.map Event.unstamped) = s.addEvents c events := by
  induction events generalizing s with
  | nil => rfl
  | cons e rest ih =>
      rw [List.map_cons, addEvents, addEvents, addEvent_unstamped]
      rcases s.addEvent c e false with ⟨cause | answer, s'⟩
      · rfl
      · exact ih s'

theorem ofDocument_unstamped (c : Catalog) (d : DataDocument) :
    ofDocument c d.unstamped = ofDocument c d := by
  have nodes : empty.setNodes c d.unstamped.nodes = empty.setNodes c d.nodes :=
    addNodes_unstamped d.nodes _
  have events (s : Store) :
      s.setEvents c d.unstamped.events.values.flatten = s.setEvents c d.events.values.flatten := by
    have listed := d.listedEvents_unstamped
    rw [DataDocument.listedEvents, DataDocument.listedEvents] at listed
    rw [listed]
    exact addEvents_unstamped _ _
  simp only [ofDocument, nodes, events]

/-! ## What is taken in -/

theorem shelves_ofDocument (c : Catalog) (d : DataDocument) :
    (ofDocument c d).map (fun s => (s.nodes, s.events)) = do
      let nodes ← Shelf.filled c id d.nodes
      let events ← Shelf.filled c (Event.withMembership c) d.listedEvents
      return (nodes, events) := by
  have nodesSet : empty.setNodes c d.nodes = ((({} : Shelf Node).addAll c id d.nodes).1,
      { nodes := (({} : Shelf Node).addAll c id d.nodes).2 }) := addNodes_eq d.nodes empty
  rw [ofDocument, nodesSet, Shelf.filled]
  rcases ({} : Shelf Node).addAll c id d.nodes with ⟨cause | _, nodes⟩
  · rfl
  · have eventsSet : setEvents c { nodes } d.events.values.flatten =
        addEvents c { nodes } d.listedEvents := rfl
    obtain ⟨answer, events, sameNodes⟩ := addEvents_eq (c := c) d.listedEvents { nodes }
    have filling : ((addEvents c { nodes } d.listedEvents).1,
        (addEvents c { nodes } d.listedEvents).2.events) =
          ({} : Shelf Event).addAll c (Event.withMembership c) d.listedEvents :=
      Prod.ext answer events
    rw [Shelf.filled, ← filling]
    simp only [eventsSet]
    revert sameNodes
    rcases addEvents c { nodes } d.listedEvents with ⟨cause | _, s⟩
    · intro _
      rfl
    · rintro rfl
      rfl

/-! ## What is loaded -/

/-- What loading a document gives. -/
structure Loads (c : Catalog) (d : DataDocument) : Prop where
  fails : (∃ cause, ofDocument c d = .error cause) ↔
    Shelf.Clash c (Shelf.kept d.nodes) ∨ Shelf.Clash c (Shelf.kept d.listedEvents)
  nodes {s : Store} : ofDocument c d = .ok s →
    s.nodes.entries.entries = (Shelf.kept d.nodes).map (Shelf.settled c id)
  events {s : Store} : ofDocument c d = .ok s → s.events.entries.entries =
    (Shelf.kept d.listedEvents).map (Shelf.settled c (Event.withMembership c))
  /-- The events are filed under their own types, and not under those of the document. -/
  groups {s : Store} : ofDocument c d = .ok s → s.groups.Mirrors (Shelf.kept d.listedEvents)
  unstamped (other : DataDocument) :
    other.unstamped = d.unstamped → ofDocument c other = ofDocument c d

theorem filled_of_ofDocument (loaded : ofDocument c d = .ok s) :
    Shelf.filled c id d.nodes = .ok s.nodes ∧
      Shelf.filled c (Event.withMembership c) d.listedEvents = .ok s.events := by
  have shelves := shelves_ofDocument c d
  rw [loaded, eq_comm] at shelves
  obtain ⟨nodes, fillsNodes, rest⟩ := Outcome.bind_eq_ok_iff.mp shelves
  obtain ⟨events, fillsEvents, both⟩ := Outcome.bind_eq_ok_iff.mp rest
  cases both
  exact ⟨fillsNodes, fillsEvents⟩

/-- Loading a document keeps the first effective entry under each logic identifier, with its
    fingerprint and membership as they are now, and fails exactly when a fingerprint among these
    cannot be computed or two of one kind have the same one. What the document says of
    fingerprints and memberships makes no difference. -/
theorem ofDocument_loads (c : Catalog) (d : DataDocument) : Loads c d where
  fails := by
    rw [← Shelf.filled_eq_error_iff light_id, ← Shelf.filled_eq_error_iff (light_withMembership c)]
    have failing : (∃ cause, ofDocument c d = .error cause) ↔ ∃ cause,
        (ofDocument c d).map (fun s => (s.nodes, s.events)) = .error cause := by
      simp only [Outcome.map_eq_error_iff]
    rw [failing, shelves_ofDocument]
    cases Shelf.filled c id d.nodes with
    | error cause => simp [bind, Except.bind]
    | ok nodes =>
        cases Shelf.filled c (Event.withMembership c) d.listedEvents <;>
          simp [bind, Except.bind, pure, Except.pure]
  nodes loaded := Shelf.entries_filled light_id (filled_of_ofDocument loaded).1
  events loaded :=
    Shelf.entries_filled (light_withMembership c) (filled_of_ofDocument loaded).2
  groups loaded := by
    have entries :=
      Shelf.entries_filled (light_withMembership c) (filled_of_ofDocument loaded).2
    apply ((Consistent.kept c).ofDocument loaded).groups.congr
    intro typeName
    rw [entries, keysOfType_map]
    · rfl
    · exact fun _ _ => rfl
  unstamped other same := by
    rw [← ofDocument_unstamped, same, ofDocument_unstamped]

/-- The second town of a name is left out, and its mayor may be that of another town. -/
example : let d : DataDocument := ⟨[townOf "m" "a", townOf "k" "a", townOf "k" "b"], .empty⟩
    (ofDocument mayorCatalog d).toOption.map (·.nodes.entries.keys) =
      some ["Towna", "Townb"] := by
  decide +kernel

end Store

end SchemaGraph
