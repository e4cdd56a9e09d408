import SchemaGraph.Store.Document
import SchemaGraph.Store.Update

/-! # What every step keeps

The operations on lists of entities, and those that look something up first, take steps that
each change one entity or all of them alike. What every step keeps, they keep, wherever they
stop.
-/

namespace SchemaGraph.Store

/-- A property of the empty store that no step takes away as long as one catalog holds. Updates of
    nodes are left out: they make many changes at once. -/
structure KeptUnder (c : Catalog) (keeps : Store → Prop) : Prop where
  empty : keeps .empty
  addNode {s : Store} (n : Node) (overwrite : Bool) :
    keeps s → keeps (s.addNode c n overwrite).2
  removeNodeAt {s : Store} (key : String) : keeps s → keeps (s.removeNodeAt key).2
  clearNodes {s : Store} : keeps s → keeps s.clearNodes
  addEvent {s : Store} (e : Event) (overwrite : Bool) :
    keeps s → keeps (s.addEvent c e overwrite).2
  removeEventAt {s : Store} (key : String) : keeps s → keeps (s.removeEventAt key).2
  updateEvent {s : Store} (sourceKey sourceId : String) (target : Event) :
    keeps s → keeps (s.updateEvent c sourceKey sourceId target).2
  clearEvents {s : Store} : keeps s → keeps s.clearEvents
  setOperation {s : Store} (operation : Operation) : keeps s → keeps (s.setOperation operation)

variable {keeps : Store → Prop} {c : Catalog} {s : Store}

namespace KeptUnder

/-! ## Nodes -/

theorem removeNode (h : KeptUnder c keeps) (lookup : Lookup) (before : keeps s) :
    keeps (s.removeNode lookup).2 := by
  unfold Store.removeNode
  split
  · exact h.removeNodeAt _ before
  · exact before

theorem addNodes (h : KeptUnder c keeps) (nodes : List Node) (before : keeps s) :
    keeps (s.addNodes c nodes).2 := by
  induction nodes generalizing s with
  | nil => exact before
  | cons n rest ih =>
      have added := h.addNode n false before
      unfold Store.addNodes
      split
      · rename_i answer
        rw [answer] at added
        exact ih added
      · rename_i answer
        rw [answer] at added
        exact added

theorem setNodes (h : KeptUnder c keeps) (nodes : List Node) (before : keeps s) :
    keeps (s.setNodes c nodes).2 :=
  h.addNodes nodes (h.clearNodes before)

theorem computeNode (h : KeptUnder c keeps) (lookup : Lookup) (f : Option Node → Option Node)
    (before : keeps s) : keeps (s.computeNode c lookup f).2 := by
  unfold Store.computeNode
  split
  · exact h.addNode _ true before
  · exact h.removeNode lookup before

/-! ## Events -/

theorem removeEvent (h : KeptUnder c keeps) (lookup : Lookup) (before : keeps s) :
    keeps (s.removeEvent lookup).2 := by
  unfold Store.removeEvent
  split
  · exact h.removeEventAt _ before
  · exact before

theorem addEvents (h : KeptUnder c keeps) (events : List Event) (before : keeps s) :
    keeps (s.addEvents c events).2 := by
  induction events generalizing s with
  | nil => exact before
  | cons e rest ih =>
      have added := h.addEvent e false before
      unfold Store.addEvents
      split
      · rename_i answer
        rw [answer] at added
        exact ih added
      · rename_i answer
        rw [answer] at added
        exact added

theorem setEvents (h : KeptUnder c keeps) (events : List Event) (before : keeps s) :
    keeps (s.setEvents c events).2 :=
  h.addEvents events (h.clearEvents before)

theorem computeEvent (h : KeptUnder c keeps) (lookup : Lookup)
    (f : Option Event → Option Event) (before : keeps s) :
    keeps (s.computeEvent c lookup f).2 := by
  unfold Store.computeEvent
  split
  · exact h.addEvent _ true before
  · exact h.removeEvent lookup before

/-! ## Both -/

theorem clear (h : KeptUnder c keeps) (before : keeps s) : keeps s.clear :=
  h.clearEvents (h.clearNodes before)

theorem merge (h : KeptUnder c keeps) (other : Store) (before : keeps s) :
    keeps (s.merge c other).2 := by
  have added := h.addNodes other.detachedNodes before
  unfold Store.merge
  split
  · rename_i answer
    rw [answer] at added
    exact h.addEvents _ added
  · rename_i answer
    rw [answer] at added
    exact added

/-- Every store that a document loads has the property, however the document repeats
    itself. -/
theorem ofDocument (h : KeptUnder c keeps) {d : DataDocument}
    (loaded : Store.ofDocument c d = .ok s) : keeps s := by
  have withNodes := h.setNodes d.nodes h.empty
  unfold Store.ofDocument at loaded
  split at loaded
  · cases loaded
  · rename_i answer
    rw [answer] at withNodes
    have withEvents := h.setEvents d.events.values.flatten withNodes
    split at loaded
    · cases loaded
    · rename_i result
      rw [result] at withEvents
      cases loaded
      exact withEvents

end KeptUnder

end SchemaGraph.Store
