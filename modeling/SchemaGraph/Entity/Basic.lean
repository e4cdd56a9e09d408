import SchemaGraph.Entity.Core
import SchemaGraph.Chain.Associate

/-! # Entities

Nodes and events are entities: they differ in what, besides the identifier, tells them
apart, and in which definition says what makes them unique.
-/

namespace SchemaGraph

/-- A kind of entity. -/
class Entity (ε : Type) where
  /-- The name of the kind. -/
  kind : ε → String
  core : ε → Core
  withCore : ε → Core → ε
  /-- The text of all that tells entities apart besides their identifiers, if it is complete. -/
  basis? : ε → Option String
  /-- The unique index that the catalog defines for the type of the entity. -/
  uniqueIndex : Catalog → ε → List String
  /-- The properties by which the catalog shows entities of the type. -/
  displayKeys : Catalog → ε → List String
  core_withCore (e : ε) (c : Core) : core (withCore e c) = c

/-- Why an entity gives no logic identifier or fingerprint. -/
inductive EntityError where
  /-- The identifier or a part of the basis is missing. -/
  | notEffective (kind : String) (typeName id : Option String)
  | chain (cause : Chain.ChainError)
  deriving Repr, DecidableEq

def EntityError.message : EntityError → String
  | .notEffective kind typeName id =>
      kind ++ " is not effective: sd=" ++ typeName.getD "?" ++ " id=" ++ id.getD "?"
  | .chain cause => "Associative unique property: " ++ cause.message

namespace Entity

variable {ε : Type} [Entity ε]

def id (e : ε) : Option String := (core e).id

def typeName (e : ε) : Option String := (core e).typeName

/-- The fingerprint that was computed last, if the entity has not changed since. -/
def fingerprint (e : ε) : Option String := (core e).fingerprint

def properties (e : ε) : PropertyMap := (core e).properties

def property? (e : ε) (key : String) : Option Value := (properties e).get? key

def directives (e : ε) : Directives := (core e).directives

/-- Whether the entity has all that a logic identifier needs. -/
def isEffective (e : ε) : Bool := (id e).isSome && (basis? e).isSome

/-- The basis with the identifier behind it. -/
def logicKey? (e : ε) : Option String := do
  let basis ← basis? e
  let id ← id e
  return basis ++ id

def notEffective (e : ε) : EntityError := .notEffective (kind e) (typeName e) (id e)

def logicId (e : ε) : Except EntityError String :=
  match logicKey? e with
  | some key => .ok key
  | none => .error (notEffective e)

/-- Entities are taken for the same when they have the same logic identifier or both none. -/
def same (d e : ε) : Bool := logicKey? d = logicKey? e

/-- A hash that the same entities share. -/
def hashCode (e : ε) : UInt64 := hash (logicKey? e)

/-! ## Changes

A change that may bear on the fingerprint drops the computed one. -/

/-- Change the core. -/
def modifyCore (f : Core → Core) (e : ε) : ε := withCore e (f (core e))

def setProperty (e : ε) (key : String) (value : Value) : ε :=
  modifyCore (fun c => { c.stale with properties := c.properties.insert key value }) e

/-- Remove a property; the answer is its value. -/
def removeProperty (e : ε) (key : String) : Option Value × ε :=
  (property? e key,
    modifyCore (fun c => { c.stale with properties := c.properties.erase key }) e)

/-- Write the properties of another entity, of either kind, over the own ones. -/
def merge {δ : Type} [Entity δ] (e : ε) (other : δ) : ε :=
  modifyCore (fun c => { c.stale with properties := c.properties.insertAll (properties other) }) e

def setId (e : ε) (id : String) : ε := modifyCore (fun c => { c.stale with id := some id }) e

def setOperation (e : ε) (operation : Operation) : ε :=
  modifyCore (fun c => { c with directives := { c.directives with operation := some operation } }) e

def removeDirectives (e : ε) : ε := modifyCore (fun c => { c with directives := {} }) e

end Entity

end SchemaGraph
