import SchemaGraph.Collections.OrderedSet
import SchemaGraph.Entity.Event
import SchemaGraph.Store.Shelf

/-! # Stores

A store keeps nodes and events, and finds events by their type and by the nodes at their
ends. An event may lead to a node that is not in the store.
-/

namespace SchemaGraph

/-- The events at each node, all by their logic identifiers. -/
abbrev Adjacency := SortedMap String (OrderedSet String)

namespace Adjacency

/-- The events at a node. -/
def eventsAt (a : Adjacency) (node : String) : OrderedSet String := (a.get? node).getD .empty

def link (a : Adjacency) (node event : String) : Adjacency :=
  a.insert node ((a.eventsAt node).insert event)

/-- Part an event from a node; a node without events has no entry. -/
def unlink (a : Adjacency) (node event : String) : Adjacency :=
  match a.get? node with
  | none => a
  | some events =>
      let rest := events.erase event
      if rest.isEmpty then a.erase node else a.insert node rest

/-- Let an event take the place of another one at a node that has events. -/
def relink (a : Adjacency) (node old new : String) : Adjacency :=
  match a.get? node with
  | none => a
  | some events => a.insert node (events.replace old new)

end Adjacency

/-- The events of each type, all by their logic identifiers, in order of arrival. -/
abbrev TypeGroups := OrderedMap String (OrderedSet String)

namespace TypeGroups

def file (g : TypeGroups) (typeName event : String) : TypeGroups :=
  g.insert typeName (((g.get? typeName).getD .empty).insert event)

/-- Take an event out of its group; a group without events goes. -/
def unfile (g : TypeGroups) (typeName event : String) : TypeGroups :=
  match g.get? typeName with
  | none => g
  | some events =>
      let rest := events.erase event
      if rest.isEmpty then g.erase typeName else g.insert typeName rest

/-- Let an event take the place of another one in a group. -/
def refile (g : TypeGroups) (typeName old new : String) : TypeGroups :=
  match g.get? typeName with
  | none => g
  | some events => g.insert typeName (events.replace old new)

end TypeGroups

/-- Nodes and events with their indices. -/
structure Store where
  nodes : Shelf Node := {}
  events : Shelf Event := {}
  groups : TypeGroups := .empty
  adjacency : Adjacency := .empty
  deriving Inhabited

namespace Store

/-- The store without nodes and events. -/
def empty : Store := {}

/-- Whether there are neither nodes nor events. -/
def isEmpty (s : Store) : Bool := s.nodes.entries.isEmpty && s.events.entries.isEmpty

/-! ## Views -/

/-- The events that touch a node at either end. -/
def incidentEvents (s : Store) (node : String) : List Event :=
  (s.adjacency.eventsAt node).members.filterMap s.events.get?

/-- The events of a type. -/
def eventsOfType (s : Store) (typeName : String) : List Event :=
  ((s.groups.get? typeName).getD .empty).members.filterMap s.events.get?

/-- The events of every type. -/
def groupedEvents (s : Store) : OrderedMap String (List Event) :=
  s.groups.mapValues fun events => events.members.filterMap s.events.get?

/-- Copies of all nodes. -/
def detachedNodes (s : Store) : List Node := s.nodes.values.map Node.detached

/-- Copies of the events of every type. -/
def detachedEvents (s : Store) : OrderedMap String (List Event) :=
  s.groupedEvents.mapValues fun events => events.map Event.detached

/-- Copies of the nodes at the ends of an event, as far as they are held; one node at both
    ends counts once. -/
def nodesOf (s : Store) (e : Event) : List Node :=
  match e.leftKey?, e.rightKey? with
  | some left, some right =>
      let keys := if right = left then [left] else [left, right]
      (keys.filterMap s.nodes.get?).map Node.detached
  | _, _ => []

/-- Copies of the events that touch a node. -/
def eventsOf (s : Store) (n : Node) : List Event :=
  match Entity.logicKey? n with
  | some key => (s.incidentEvents key).map Event.detached
  | none => []

/-! ## The indices of events -/

/-- File an event under its type and both its ends. -/
def index (s : Store) (key : String) (e : Event) : Store :=
  { s with
    groups := match e.core.typeName with
      | some typeName => s.groups.file typeName key
      | none => s.groups
    adjacency := e.endKeys.foldl (fun a node => a.link node key) s.adjacency }

/-- Take an event out of the group of its type and from both its ends. -/
def unindex (s : Store) (key : String) (e : Event) : Store :=
  { s with
    groups := match e.core.typeName with
      | some typeName => s.groups.unfile typeName key
      | none => s.groups
    adjacency := e.endKeys.foldl (fun a node => a.unlink node key) s.adjacency }

end Store

end SchemaGraph
