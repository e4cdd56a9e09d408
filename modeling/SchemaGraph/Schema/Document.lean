import SchemaGraph.Schema.Catalog

/-! # Schema documents

The written order of a catalog: node definitions by name, and event definitions nested by
event, left type and right type. The keys of the document name its definitions.
-/

namespace SchemaGraph

/-- Definitions under the keys of a document. -/
structure SchemaDocument where
  nodes : SortedMap String NodeDefinition := .empty
  events : SortedMap String (SortedMap String (SortedMap String EventDefinition)) := .empty
  deriving Repr, DecidableEq, Inhabited

namespace SchemaDocument

/-- The node definitions under the names that the document gives them. -/
def nodeDefinitions (s : SchemaDocument) : List NodeDefinition :=
  s.nodes.entries.map fun (name, d) => { d with name }

/-- The event definitions under the keys that the document gives them. -/
def eventDefinitions (s : SchemaDocument) : List EventDefinition :=
  s.events.entries.flatMap fun (event, byLeft) =>
    byLeft.entries.flatMap fun (left, byRight) =>
      byRight.entries.map fun (right, d) => { d with key := ⟨event, left, right⟩ }

/-- Nest one more event definition. -/
def addEvent (s : SchemaDocument) (d : EventDefinition) : SchemaDocument :=
  let byLeft := (s.events.get? d.key.event).getD .empty
  let byRight := (byLeft.get? d.key.left).getD .empty
  let byRight := byRight.insert d.key.right d
  { s with events := s.events.insert d.key.event (byLeft.insert d.key.left byRight) }

end SchemaDocument

namespace Catalog

/-- The catalog of a document; since nodes go first, events may be between any of them. -/
def ofDocument (s : SchemaDocument) : Except CatalogError Catalog := do
  let c ← s.nodeDefinitions.foldlM (fun c d => c.putNode d false) empty
  s.eventDefinitions.foldlM (fun c d => c.putEvent d false) c

/-- The document that lists a catalog. -/
def toDocument (c : Catalog) : SchemaDocument :=
  c.events.values.foldl SchemaDocument.addEvent { nodes := c.nodes }

end Catalog

end SchemaGraph
