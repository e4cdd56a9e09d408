import SchemaGraph.Schema.Definition

/-! # Catalogs of definitions

A catalog holds definitions under their own names, every event type between node types
that it also holds, and for every node type the event types that touch it, in their order.
-/

namespace SchemaGraph

/-- Why a catalog refuses a definition. -/
inductive CatalogError where
  | nodeExists (name : String)
  | nodeMissing (name : String)
  | eventExists (key : EventKey)
  | eventMissing (key : EventKey)
  /-- An event type has an end of a type that is not defined. -/
  | undefinedEnd (event node : String)
  deriving Repr, DecidableEq

def CatalogError.message : CatalogError → String
  | .nodeExists name => "Node definition already exists: " ++ name
  | .nodeMissing name => "Node definition not found: " ++ name
  | .eventExists key => "Event definition already exists: " ++ key.text
  | .eventMissing key => "Event definition not found: " ++ key.text
  | .undefinedEnd event node => "Event " ++ event ++ " refers to undefined node type " ++ node

/-- The event types that touch each node type. -/
abbrev IncidentIndex := SortedMap String (List EventDefinition)

namespace IncidentIndex

/-- File a definition behind the others of a node type. -/
def file (index : IncidentIndex) (node : String) (d : EventDefinition) : IncidentIndex :=
  index.insert node ((index.get? node).getD [] ++ [d])

/-- File a definition under the types of both ends, once when they are the same. -/
def fileEnds (index : IncidentIndex) (d : EventDefinition) : IncidentIndex :=
  let index := file index d.key.left d
  if d.key.right = d.key.left then index else file index d.key.right d

/-- The index of a list of definitions. -/
def ofDefinitions (definitions : List EventDefinition) : IncidentIndex :=
  definitions.foldl fileEnds .empty

end IncidentIndex

/-- Definitions of node and event types. -/
structure Catalog where
  nodes : SortedMap String NodeDefinition
  events : SortedMap EventKey EventDefinition
  incident : IncidentIndex
  deriving Repr, DecidableEq

namespace Catalog

/-- The catalog without definitions. -/
def empty : Catalog := ⟨.empty, .empty, .empty⟩

instance : Inhabited Catalog := ⟨empty⟩
instance : EmptyCollection Catalog := ⟨empty⟩

def node? (c : Catalog) (name : String) : Option NodeDefinition := c.nodes.get? name

def event? (c : Catalog) (key : EventKey) : Option EventDefinition := c.events.get? key

/-- The event types that touch a node type, in their order. -/
def incidentTo (c : Catalog) (node : String) : List EventDefinition :=
  (c.incident.get? node).getD []

def isEmpty (c : Catalog) : Bool := c.nodes.isEmpty && c.events.isEmpty

/-- The catalog with other event definitions. -/
def withEvents (c : Catalog) (events : SortedMap EventKey EventDefinition) : Catalog :=
  { c with events, incident := .ofDefinitions events.values }

/-- Add a node definition, or with `overwrite` replace one. -/
def putNode (c : Catalog) (d : NodeDefinition) (overwrite : Bool) : Except CatalogError Catalog :=
  if !overwrite && c.nodes.contains d.name then .error (.nodeExists d.name)
  else if overwrite && !c.nodes.contains d.name then .error (.nodeMissing d.name)
  else .ok { c with nodes := c.nodes.insert d.name d.normalized }

/-- Add an event definition between defined node types, or with `overwrite` replace one. -/
def putEvent (c : Catalog) (d : EventDefinition) (overwrite : Bool) : Except CatalogError Catalog :=
  if !c.nodes.contains d.key.left then .error (.undefinedEnd d.key.event d.key.left)
  else if !c.nodes.contains d.key.right then .error (.undefinedEnd d.key.event d.key.right)
  else if !overwrite && c.events.contains d.key then .error (.eventExists d.key)
  else if overwrite && !c.events.contains d.key then .error (.eventMissing d.key)
  else .ok (c.withEvents (c.events.insert d.key d.normalized))

/-- Remove a node type and every event type that touches it. -/
def removeNode (c : Catalog) (name : String) : Option NodeDefinition × Catalog :=
  match c.node? name with
  | none => (none, c)
  | some d =>
      (some d, { c with nodes := c.nodes.erase name }.withEvents
        (c.events.filter fun e => !e.touches name))

def removeEvent (c : Catalog) (key : EventKey) : Option EventDefinition × Catalog :=
  match c.event? key with
  | none => (none, c)
  | some d => (some d, c.withEvents (c.events.erase key))

end Catalog

end SchemaGraph
