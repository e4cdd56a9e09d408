import SchemaGraph.Store.Contents
import SchemaGraph.Entity.Tree
import SchemaGraph.Schema.Text

/-! # Documents

A data document lists the contents of a store: nodes in their order and events by groups.
A whole document has a schema beside its data. Loading keeps the first of the entries that
have one logic identifier.
-/

namespace SchemaGraph

open Data (Format Tree)

/-- Nodes in order, and events in groups. -/
structure DataDocument where
  nodes : List Node := []
  events : OrderedMap String (List Event) := .empty
  deriving Inhabited

namespace DataDocument

/-- Whether there are neither nodes nor events; groups without events do not count. -/
def isEmpty (d : DataDocument) : Bool := d.nodes.isEmpty && d.events.values.all List.isEmpty

def fieldNames : List String := ["node", "event"]

/-- The document that a tree says which stands below `above` lists and maps. -/
def ofTree? (format : Format) (above : Nat) (t : Tree) : Option DataDocument := do
  let fields ← t.asRecord? format fieldNames
  let nodes ← Tree.field? fields "node" [] fun t => do
    (← t.asList?).mapM (Node.ofTree? format (above + 2))
  let events ← Tree.field? fields "event" .empty <| Tree.asOrdered? fun t => do
    (← t.asList?).mapM (Event.ofTree? format (above + 3))
  return { nodes, events }

def toTree (d : DataDocument) : Tree := keyedTree [
  ("node", .list (d.nodes.map Node.toTree)),
  ("event", keyedTree (d.events.mapValues fun events => .list (events.map Event.toTree)).entries)]

/-- The data document of a JSON text. -/
def ofJson? (text : String) : Option DataDocument :=
  (Data.Json.read? text).bind (ofTree? .json 0)

def json (d : DataDocument) : String := Data.Json.print d.toTree

end DataDocument

namespace Store

/-- The document of a store, fingerprints included. -/
def toDocument (s : Store) : DataDocument :=
  ⟨s.nodes.values.map Node.duplicate, s.groupedEvents⟩

/-- The store that a document lists. -/
def ofDocument (c : Catalog) (d : DataDocument) : Except StoreError Store :=
  match empty.setNodes c d.nodes with
  | (.error e, _) => .error e
  | (.ok (), s) =>
      match s.setEvents c d.events.values.flatten with
      | (.error e, _) => .error e
      | (.ok (), s) => .ok s

end Store

/-- A schema and data. -/
structure Document where
  schema : SchemaDocument := {}
  data : DataDocument := {}
  deriving Inhabited

namespace Document

def fieldNames : List String := ["sd", "data"]

def ofTree? (format : Format) (t : Tree) : Option Document := do
  let fields ← t.asRecord? format fieldNames
  let schema ← Tree.field? fields "sd" {} (SchemaDocument.ofTree? format)
  let data ← Tree.field? fields "data" {} (DataDocument.ofTree? format 1)
  return { schema, data }

def toTree (d : Document) : Tree := keyedTree [("sd", d.schema.toTree), ("data", d.data.toTree)]

/-- The document of a text. -/
def ofText? (format : Format) (text : String) : Option Document :=
  (Tree.ofText? format text).bind (ofTree? format)

def json (d : Document) : String := Data.Json.print d.toTree

end Document

end SchemaGraph
