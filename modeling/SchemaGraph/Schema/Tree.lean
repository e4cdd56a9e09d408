import SchemaGraph.Schema.Document
import SchemaGraph.Data.Typed

/-! # Schema documents as data trees

A definition is a record in which every field may be missing. Its name is not among them:
it is the key under which the definition stands.
-/

namespace SchemaGraph

open Data (Format Tree)

def textsTree (texts : List String) : Tree := .list (texts.map .text)

def optionalText : Option String → Tree
  | some text => .text text
  | none => .null

/-- A map with texts as keys. -/
def keyedTree (entries : List (String × Tree)) : Tree :=
  .map (entries.map fun (key, t) => (.text key, t))

namespace Required

def name : Required → String
  | .left => "left"
  | .right => "right"
  | .both => "both"
  | .neither => "none"

def ofName? : String → Option Required
  | "left" => some .left
  | "right" => some .right
  | "both" => some .both
  | "none" => some .neither
  | _ => none

/-- What a name says; it may also be the key of a map with one entry of nothing. -/
def ofTree? : Tree → Option Required
  | .map [(key, .null)] => key.asText?.bind ofName?
  | t => t.asText?.bind ofName?

end Required

namespace NodeDefinition

def fieldNames : List String := ["title", "display", "namespace", "extend", "uniqueIndex"]

/-- The definition that a tree says, still without its name. -/
def ofTree? (format : Format) (t : Tree) : Option NodeDefinition := do
  let fields ← t.asRecord? format fieldNames
  let title ← Tree.field? fields "title" none (Tree.asOptional? Tree.asText?)
  let display ← Tree.field? fields "display" [] Tree.asTexts?
  let namespaces ← Tree.field? fields "namespace" [] Tree.asTexts?
  let extensions ← Tree.field? fields "extend" [] Tree.asTexts?
  let uniqueIndex ← Tree.field? fields "uniqueIndex" [] Tree.asTexts?
  return { title, display, namespaces, extensions, uniqueIndex }

def toTree (d : NodeDefinition) : Tree := keyedTree [
  ("title", optionalText d.title),
  ("display", textsTree d.display),
  ("namespace", textsTree d.namespaces),
  ("extend", textsTree d.extensions),
  ("uniqueIndex", textsTree d.uniqueIndex)]

end NodeDefinition

namespace EventDefinition

def fieldNames : List String := ["title", "display", "namespace", "uniqueIndex", "isMember",
  "isLeftMaster", "isRightMaster", "required", "readonly"]

/-- The definition that a tree says, still without its key. -/
def ofTree? (format : Format) (t : Tree) : Option EventDefinition := do
  let fields ← t.asRecord? format fieldNames
  let title ← Tree.field? fields "title" none (Tree.asOptional? Tree.asText?)
  let display ← Tree.field? fields "display" [] Tree.asTexts?
  let namespaces ← Tree.field? fields "namespace" [] Tree.asTexts?
  let uniqueIndex ← Tree.field? fields "uniqueIndex" [] Tree.asTexts?
  let isMember ← Tree.field? fields "isMember" false Tree.asBool?
  let isLeftMaster ← Tree.field? fields "isLeftMaster" false Tree.asBool?
  let isRightMaster ← Tree.field? fields "isRightMaster" false Tree.asBool?
  let required ← Tree.field? fields "required" Required.neither Required.ofTree?
  let readonly ← Tree.field? fields "readonly" false Tree.asBool?
  return { title, display, namespaces, uniqueIndex, isMember, isLeftMaster, isRightMaster,
           required, readonly }

def toTree (d : EventDefinition) : Tree := keyedTree [
  ("title", optionalText d.title),
  ("display", textsTree d.display),
  ("namespace", textsTree d.namespaces),
  ("uniqueIndex", textsTree d.uniqueIndex),
  ("isMember", .bool d.isMember),
  ("isLeftMaster", .bool d.isLeftMaster),
  ("isRightMaster", .bool d.isRightMaster),
  ("required", .text d.required.name),
  ("readonly", .bool d.readonly)]

end EventDefinition

namespace SchemaDocument

def fieldNames : List String := ["node", "event"]

def ofTree? (format : Format) (t : Tree) : Option SchemaDocument := do
  let fields ← t.asRecord? format fieldNames
  let nodes ← Tree.field? fields "node" .empty (Tree.asSorted? (NodeDefinition.ofTree? format))
  let events ← Tree.field? fields "event" .empty
    (Tree.asSorted? (Tree.asSorted? (Tree.asSorted? (EventDefinition.ofTree? format))))
  return { nodes, events }

def toTree (s : SchemaDocument) : Tree :=
  keyedTree [
    ("node", keyedTree (s.nodes.mapValues NodeDefinition.toTree).entries),
    ("event", keyedTree (s.events.mapValues fun byLeft =>
      keyedTree (byLeft.mapValues fun byRight =>
        keyedTree (byRight.mapValues EventDefinition.toTree).entries).entries).entries)]

end SchemaDocument

end SchemaGraph
