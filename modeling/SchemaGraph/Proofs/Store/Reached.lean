import SchemaGraph.Proofs.Store.Renaming
import SchemaGraph.Proofs.Store.Steps

/-! # Reached stores

Every store that a user can reach is consistent, whatever fails on the way and however the
catalog changes between two actions. The one thing that must not happen is an update of a
node that gives an event the new or present key of another event at the node.
-/

namespace SchemaGraph.Store

/-- What a user can do to a store. -/
inductive Action where
  | addNode (n : Node) (overwrite : Bool)
  /-- Remove the node that is the same as the given one. -/
  | removeSameNode (n : Node)
  | removeNode (lookup : Lookup)
  | updateNode (sourceKey sourceId : String) (target : Node)
  | computeNode (lookup : Lookup) (f : Option Node → Option Node)
  | setNodes (nodes : List Node)
  | clearNodes
  | addEvent (e : Event) (overwrite : Bool)
  /-- Remove the event that is the same as the given one. -/
  | removeSameEvent (e : Event)
  | removeEvent (lookup : Lookup)
  | updateEvent (sourceKey sourceId : String) (target : Event)
  | computeEvent (lookup : Lookup) (f : Option Event → Option Event)
  | setEvents (events : List Event)
  | clearEvents
  | clear
  | merge (other : Store)
  | setOperation (operation : Operation)
  /-- Go on with what a document lists, if it loads. -/
  | load (d : DataDocument)

/-- The store behind an action, whether it succeeds or not. -/
def Action.run (c : Catalog) (s : Store) : Action → Store
  | .addNode n overwrite => (s.addNode c n overwrite).2
  | .removeSameNode n =>
      match Entity.logicKey? n with
      | some key => (s.removeNodeAt key).2
      | none => s
  | .removeNode lookup => (s.removeNode lookup).2
  | .updateNode sourceKey sourceId target => (s.updateNode c sourceKey sourceId target).2
  | .computeNode lookup f => (s.computeNode c lookup f).2
  | .setNodes nodes => (s.setNodes c nodes).2
  | .clearNodes => s.clearNodes
  | .addEvent e overwrite => (s.addEvent c e overwrite).2
  | .removeSameEvent e =>
      match Entity.logicKey? e with
      | some key => (s.removeEventAt key).2
      | none => s
  | .removeEvent lookup => (s.removeEvent lookup).2
  | .updateEvent sourceKey sourceId target => (s.updateEvent c sourceKey sourceId target).2
  | .computeEvent lookup f => (s.computeEvent c lookup f).2
  | .setEvents events => (s.setEvents c events).2
  | .clearEvents => s.clearEvents
  | .clear => s.clear
  | .merge other => (s.merge c other).2
  | .setOperation operation => s.setOperation operation
  | .load d =>
      match ofDocument c d with
      | .ok loaded => loaded
      | .error _ => s

/-- A successful update of a node that gives it another key gives its events keys apart from
    each other. -/
def Action.RepointsApart (c : Catalog) (s : Store) : Action → Prop
  | .updateNode sourceKey sourceId target =>
      (s.updateNode c sourceKey sourceId target).1.isOk = true →
        Entity.logicKey? target ≠ some sourceKey → s.RepointsApart sourceKey target
  | _ => True

/-- The stores that actions, each with the catalog of its time, make of the empty one. -/
inductive Reached (allowed : Catalog → Store → Action → Prop) : Store → Prop
  | empty : Reached allowed .empty
  | step {s : Store} (c : Catalog) (action : Action) : Reached allowed s → allowed c s action →
      Reached allowed (action.run c s)

variable {s : Store}

/-- What the steps keep, an action keeps, and so does an update of a node where it does. -/
theorem KeptUnder.run {keeps : Store → Prop} {c : Catalog} (h : KeptUnder c keeps)
    (action : Action) (before : keeps s)
    (update : ∀ sourceKey sourceId target, action = .updateNode sourceKey sourceId target →
      keeps (s.updateNode c sourceKey sourceId target).2) : keeps (action.run c s) := by
  cases action with
  | addNode n overwrite => exact h.addNode n overwrite before
  | removeSameNode n =>
      simp only [Action.run]
      split
      · exact h.removeNodeAt _ before
      · exact before
  | removeNode lookup => exact h.removeNode lookup before
  | updateNode sourceKey sourceId target => exact update sourceKey sourceId target rfl
  | computeNode lookup f => exact h.computeNode lookup f before
  | setNodes nodes => exact h.setNodes nodes before
  | clearNodes => exact h.clearNodes before
  | addEvent e overwrite => exact h.addEvent e overwrite before
  | removeSameEvent e =>
      simp only [Action.run]
      split
      · exact h.removeEventAt _ before
      · exact before
  | removeEvent lookup => exact h.removeEvent lookup before
  | updateEvent sourceKey sourceId target => exact h.updateEvent sourceKey sourceId target before
  | computeEvent lookup f => exact h.computeEvent lookup f before
  | setEvents events => exact h.setEvents events before
  | clearEvents => exact h.clearEvents before
  | clear => exact h.clear before
  | merge other => exact h.merge other before
  | setOperation operation => exact h.setOperation operation before
  | load d =>
      simp only [Action.run]
      split
      · rename_i loaded
        exact h.ofDocument loaded
      · exact before

theorem Consistent.kept (c : Catalog) : KeptUnder c Consistent where
  empty := .empty
  addNode n overwrite h := h.addNode c n overwrite
  removeNodeAt key h := h.removeNodeAt key
  clearNodes h := h.clearNodes
  addEvent e overwrite h := h.addEvent c e overwrite
  removeEventAt key h := h.removeEventAt key
  updateEvent sourceKey sourceId target h := h.updateEvent c sourceKey sourceId target
  clearEvents h := h.clearEvents
  setOperation operation h := h.setOperation operation

theorem Consistent.run (h : s.Consistent) (c : Catalog) (action : Action)
    (apart : action.RepointsApart c s) : (action.run c s).Consistent := by
  refine (Consistent.kept c).run action h fun sourceKey sourceId target isUpdate => ?_
  subst isUpdate
  exact h.updateNode c sourceKey sourceId target apart

/-- No two entities of a shelf carry one fingerprint. -/
def FingerprintsApart {ε : Type} [Entity ε] (shelf : Shelf ε) : Prop :=
  ∀ one other d e fingerprint, shelf.get? one = some d → shelf.get? other = some e →
    Entity.fingerprint d = some fingerprint → Entity.fingerprint e = some fingerprint →
      one = other

/-- In every reached store all indices mirror the nodes and events, and a fingerprint tells
    apart the nodes as well as the events. -/
theorem Reached.indices_mirror (h : Reached Action.RepointsApart s) :
    s.Consistent ∧ FingerprintsApart s.nodes ∧ FingerprintsApart s.events := by
  have consistent : s.Consistent := by
    induction h with
    | empty => exact .empty
    | step c action _ apart ih => exact ih.run c action apart
  refine ⟨consistent, ?_, ?_⟩
  · intro one other d e fingerprint atOne atOther ofOne ofOther
    exact consistent.nodes.fingerprint_unique atOne atOther ofOne ofOther
  · intro one other d e fingerprint atOne atOther ofOne ofOther
    exact consistent.events.fingerprint_unique atOne atOther ofOne ofOther

theorem reached_roads (ends : List (String × String)) :
    Reached Action.RepointsApart (roads ends) := by
  have start : Reached Action.RepointsApart
      (Store.empty.addNode roadCatalog (.named "Town" "a") false).2 :=
    .step roadCatalog (.addNode (.named "Town" "a") false) .empty trivial
  exact List.foldlRecOn ends _ start fun s reached _ _ =>
    .step roadCatalog (.addEvent _ false) reached trivial

/-- The store stays consistent when a town with a road to itself gets another name, and when
    the catalog is gone and the town is removed under its old name. -/
theorem consistent_renamed_roads :
    let rename := Action.updateNode "Towna" "a" (.named "Town" "z")
    let remove := Action.removeSameNode (.named "Town" "a")
    (remove.run .empty (rename.run roadCatalog
      (roads [("a", "a"), ("x", "y"), ("b", "a"), ("z", "c")]))).Consistent := by
  intro rename remove
  have apart : rename.RepointsApart roadCatalog
      (roads [("a", "a"), ("x", "y"), ("b", "a"), ("z", "c")]) := by
    intro _ _
    decide +kernel
  have renamed := Reached.step roadCatalog rename (reached_roads _) apart
  exact (Reached.indices_mirror (.step .empty remove renamed trivial)).1

end SchemaGraph.Store
