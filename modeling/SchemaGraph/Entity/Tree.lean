import SchemaGraph.Entity.Event
import SchemaGraph.Value.Tree
import SchemaGraph.Time.Notation

/-! # Entities as data trees

An entity is one flat map. Some keys are reserved for what is not a property; every other
key is a property, in the order in which the keys first appear.
-/

namespace SchemaGraph

open Data (Format Tree)

/-- The entry of a reserved key, if there is something to write. -/
def reservedEntry (key : String) (t : Option Tree) : List (Tree × Tree) :=
  t.toList.map fun t => (.text key, t)

/-- Fields whose scalars without quotes have the type that they look like. -/
def resolved (fields : List (String × Tree)) : List (String × Tree) :=
  fields.map fun (key, t) => (key, t.resolve)

/-- A reserved text field, which may be missing or nothing. -/
def textField? (fields : List (String × Tree)) (key : String) : Option (Option String) :=
  Tree.field? fields key none (Tree.asOptional? Tree.asText?)

/-- A reserved truth value, which may be missing or nothing. -/
def boolField? (fields : List (String × Tree)) (key : String) : Option (Option Bool) :=
  Tree.field? fields key none (Tree.asOptional? Tree.asBool?)

/-- A reserved time, which may be missing or nothing. -/
def timeField? (fields : List (String × Tree)) (key : String) : Option (Option Time.Instant) :=
  Tree.field? fields key none (Tree.asOptional? fun t => t.asText?.bind Time.Instant.read?)

namespace Authority

def fieldNames : List String := ["editDisabled", "deleteDisabled", "propertiesDisabled"]

/-- The authority that a tree says; fields it does not have must still denote something. -/
def ofTree? (t : Tree) : Option Authority := do
  guard t.resolve.isReadable
  let fields := resolved (← t.asInnerRecord? fieldNames)
  let editDisabled ← Tree.field? fields "editDisabled" false Tree.asBool?
  let deleteDisabled ← Tree.field? fields "deleteDisabled" false Tree.asBool?
  let propertiesDisabled ← Tree.field? fields "propertiesDisabled" [] Tree.asTexts?
  return { editDisabled, deleteDisabled, propertiesDisabled }

def toTree (a : Authority) : Tree := .map [
  (.text "editDisabled", .bool a.editDisabled),
  (.text "deleteDisabled", .bool a.deleteDisabled),
  (.text "propertiesDisabled", .list (a.propertiesDisabled.map .text))]

end Authority

namespace Operation

/-- What a name says; it may also be the key of a map with one entry of nothing, and is then
    perhaps a place among all names. -/
def ofTree? : Tree → Option Operation
  | .map [(key, value)] => do
      guard (value.resolve matches .null | .map [])
      (← key.asNameAmong? (all.map name)) |> ofName?
  | .text text => ofName? text
  | .plain text => ofName? text
  | _ => none

end Operation

namespace Directives

def keys : List String :=
  ["$operate", "$operate_delete_enforce", "$operate_create_original_id", "$authority", "$syncLock"]

def ofFields? (fields : List (String × Tree)) : Option Directives := do
  let operation ← Tree.field? fields "$operate" none (Tree.asOptional? Operation.ofTree?)
  let deleteEnforced ← boolField? (resolved fields) "$operate_delete_enforce"
  let createsWithOwnId ← boolField? (resolved fields) "$operate_create_original_id"
  let authority ← Tree.field? fields "$authority" none (Tree.asOptional? Authority.ofTree?)
  let syncLock ← boolField? (resolved fields) "$syncLock"
  return { operation, deleteEnforced, createsWithOwnId, authority, syncLock }

def entries (d : Directives) : List (Tree × Tree) :=
  reservedEntry "$operate" (d.operation.map fun o => .text o.name) ++
  reservedEntry "$operate_delete_enforce" (d.deleteEnforced.map .bool) ++
  reservedEntry "$operate_create_original_id" (d.createsWithOwnId.map .bool) ++
  reservedEntry "$authority" (d.authority.map Authority.toTree) ++
  reservedEntry "$syncLock" (d.syncLock.map .bool)

end Directives

namespace Core

def keys : List String :=
  ["__id", "__uuid", "__sd", "__createTime", "__updateTime"] ++ Directives.keys

def ofFields? (fields : List (String × Tree)) (properties : PropertyMap) : Option Core := do
  let id ← textField? (resolved fields) "__id"
  let fingerprint ← textField? (resolved fields) "__uuid"
  let typeName ← textField? (resolved fields) "__sd"
  let created ← timeField? (resolved fields) "__createTime"
  let updated ← timeField? (resolved fields) "__updateTime"
  let directives ← Directives.ofFields? fields
  return { id, fingerprint, typeName, created, updated, directives, properties }

def propertyEntries (properties : PropertyMap) : List (Tree × Tree) :=
  properties.entries.map fun (key, value) => (.text key, value.toTree)

def entries (c : Core) : List (Tree × Tree) :=
  reservedEntry "__id" (c.id.map .text) ++
  reservedEntry "__uuid" (c.fingerprint.map .text) ++
  reservedEntry "__sd" (c.typeName.map .text) ++
  reservedEntry "__createTime" (c.created.map fun i => .text i.write) ++
  reservedEntry "__updateTime" (c.updated.map fun i => .text i.write) ++
  c.directives.entries ++ propertyEntries c.properties

end Core

/-- The reserved fields of a flat map and its properties, the last value of a repeated
    property in the place of the first. No reserved key may be repeated. Keys are texts
    whatever they look like. -/
def readFlat? (reserved : List String) (t : Tree) :
    Option (List (String × Tree) × PropertyMap) := do
  let entries ← t.asMap?
  let fields ← Tree.fieldsAmong? Tree.asText? reserved entries
  let others := entries.filter fun (key, _) => !(key.asText?.any fun name => name ∈ reserved)
  let properties ← Tree.readEntries? Value.ofTree? others
  return (fields, OrderedMap.ofList properties)

namespace Node

/-- The node that a tree says which stands below `above` lists and maps. -/
def ofTree? (format : Format) (above : Nat) (t : Tree) : Option Node := do
  guard (t.fitsBelow format above)
  let (fields, properties) ← readFlat? Core.keys t
  return ofCore (← Core.ofFields? fields properties)

def toTree (n : Node) : Tree := .map n.core.entries

end Node

namespace Event

def keys : List String := ["__left", "__leftSd", "__right", "__rightSd", "__isMember"] ++ Core.keys

/-- The event that a tree says which stands below `above` lists and maps. Scalars without quotes
    are texts in the fields that only events have, and elsewhere what they look like. -/
def ofTree? (format : Format) (above : Nat) (t : Tree) : Option Event := do
  guard (t.fitsBelow format above)
  let (fields, properties) ← readFlat? keys t
  let left ← textField? fields "__left"
  let leftType ← textField? fields "__leftSd"
  let right ← textField? fields "__right"
  let rightType ← textField? fields "__rightSd"
  let membership ← boolField? fields "__isMember"
  let core ← Core.ofFields? fields properties
  return { left := ⟨left, leftType⟩, right := ⟨right, rightType⟩, membership, core }

def toTree (e : Event) : Tree := .map <|
  reservedEntry "__left" (e.left.id.map .text) ++
  reservedEntry "__leftSd" (e.left.typeName.map .text) ++
  reservedEntry "__right" (e.right.id.map .text) ++
  reservedEntry "__rightSd" (e.right.typeName.map .text) ++
  reservedEntry "__isMember" (e.membership.map .bool) ++
  e.core.entries

end Event

end SchemaGraph
