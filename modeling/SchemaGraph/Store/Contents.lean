import SchemaGraph.Store.Basic

/-! # Taking in and giving out

Adding and removing nodes and events one by one and as a whole. An operation on one entity
that fails leaves the store as it was; one on a list stops at the first failure and keeps
what was done until then.
-/

namespace SchemaGraph.Store

/-- The answer of an operation, and the store behind it. -/
abbrev Answered (α : Type) := Except StoreError α × Store

/-! ## Nodes -/

/-- Remove the node under a logic identifier. Its events stay, and are still found from it. -/
def removeNodeAt (s : Store) (key : String) : Option Node × Store :=
  let (removed, nodes) := s.nodes.remove key
  (removed, { s with nodes })

def removeNode (s : Store) (lookup : Lookup) : Option Node × Store :=
  match s.nodes.keyOf? lookup with
  | some key => s.removeNodeAt key
  | none => (none, s)

/-- Add a node as the last one; with `overwrite` it replaces a node of the same logic
    identifier. The answer tells whether the node is now in the store: it is not when it is
    not effective, or when its place is taken and nothing may be overwritten. -/
def addNode (c : Catalog) (s : Store) (n : Node) (overwrite : Bool) : Answered Bool :=
  match Entity.logicKey? n with
  | none => (.ok false, s)
  | some key =>
      if !overwrite && s.nodes.contains key then (.ok false, s)
      else
        match s.nodes.admitted c key key n with
        | .error e => (.error e, s)
        | .ok n =>
            let (_, s) := s.removeNodeAt key
            (.ok true, { s with nodes := s.nodes.put key n })

def clearNodes (s : Store) : Store := { s with nodes := {} }

/-- Add nodes as long as none fails. -/
def addNodes (c : Catalog) (s : Store) : List Node → Answered Unit
  | [] => (.ok (), s)
  | n :: rest =>
      match s.addNode c n false with
      | (.ok _, s) => s.addNodes c rest
      | (.error e, s) => (.error e, s)

/-- Replace all nodes. -/
def setNodes (c : Catalog) (s : Store) (nodes : List Node) : Answered Unit :=
  s.clearNodes.addNodes c nodes

/-- Overwrite by what a function makes of the node in question, or remove that node when
    the function makes nothing. -/
def computeNode (c : Catalog) (s : Store) (lookup : Lookup) (f : Option Node → Option Node) :
    Answered Unit :=
  match f (s.nodes.find? lookup) with
  | some n =>
      let (answer, s) := s.addNode c n true
      (answer.map fun _ => (), s)
  | none => (.ok (), (s.removeNode lookup).2)

/-! ## Events -/

/-- Remove the event under a logic identifier. -/
def removeEventAt (s : Store) (key : String) : Option Event × Store :=
  match s.events.remove key with
  | (some e, events) => (some e, { s with events }.unindex key e)
  | (none, _) => (none, s)

def removeEvent (s : Store) (lookup : Lookup) : Option Event × Store :=
  match s.events.keyOf? lookup with
  | some key => s.removeEventAt key
  | none => (none, s)

/-- Add an event as the last one, in the way in which nodes are added, and mark it as a
    membership when its definition is one. -/
def addEvent (c : Catalog) (s : Store) (e : Event) (overwrite : Bool) : Answered Bool :=
  match Entity.logicKey? e with
  | none => (.ok false, s)
  | some key =>
      if !overwrite && s.events.contains key then (.ok false, s)
      else
        match s.events.admitted c key key e with
        | .error e => (.error e, s)
        | .ok e =>
            let e := e.withMembership c
            let s := (s.removeEventAt key).2.index key e
            (.ok true, { s with events := s.events.put key e })

def clearEvents (s : Store) : Store :=
  { s with events := {}, groups := .empty, adjacency := .empty }

/-- Add events as long as none fails. -/
def addEvents (c : Catalog) (s : Store) : List Event → Answered Unit
  | [] => (.ok (), s)
  | e :: rest =>
      match s.addEvent c e false with
      | (.ok _, s) => s.addEvents c rest
      | (.error e, s) => (.error e, s)

/-- Replace all events. -/
def setEvents (c : Catalog) (s : Store) (events : List Event) : Answered Unit :=
  s.clearEvents.addEvents c events

/-- Overwrite by what a function makes of the event in question, or remove that event when
    the function makes nothing. -/
def computeEvent (c : Catalog) (s : Store) (lookup : Lookup) (f : Option Event → Option Event) :
    Answered Unit :=
  match f (s.events.find? lookup) with
  | some e =>
      let (answer, s) := s.addEvent c e true
      (answer.map fun _ => (), s)
  | none => (.ok (), (s.removeEvent lookup).2)

/-! ## Both -/

def clear (s : Store) : Store := s.clearNodes.clearEvents

/-- Add copies of what another store holds, nodes before events. -/
def merge (c : Catalog) (s other : Store) : Answered Unit :=
  match s.addNodes c other.detachedNodes with
  | (.ok (), s) => s.addEvents c (other.events.values.map Event.detached)
  | (.error e, s) => (.error e, s)

/-- Give every entity the same operation. -/
def setOperation (s : Store) (operation : Operation) : Store :=
  { s with
    nodes := { s.nodes with
      entries := s.nodes.entries.mapValues fun n => Entity.setOperation n operation }
    events := { s.events with
      entries := s.events.entries.mapValues fun e => Entity.setOperation e operation } }

/-- A store with copies of all entities, which keep their fingerprints. -/
def copy (s : Store) : Store :=
  { s with nodes := { s.nodes with entries := s.nodes.entries.mapValues Node.duplicate } }

end SchemaGraph.Store
