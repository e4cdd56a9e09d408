import SchemaGraph.Entity.Fingerprint
import SchemaGraph.Store.Error

/-! # Shelves

A shelf keeps the entities of one kind in order of arrival under their logic identifiers,
and knows under which one each fingerprint is held. No two of its entities have the same
fingerprint.
-/

namespace SchemaGraph

/-- Which entity is meant. -/
inductive Lookup where
  | key (key : String)
  | fingerprint (fingerprint : String)
  deriving Repr, DecidableEq

/-- Entities by logic identifier, and logic identifiers by fingerprint. -/
structure Shelf (ε : Type) where
  entries : OrderedMap String ε := .empty
  holders : SortedMap String String := .empty

namespace Shelf

variable {ε : Type}

instance : Inhabited (Shelf ε) := ⟨{}⟩

def get? (s : Shelf ε) (key : String) : Option ε := s.entries.get? key

def contains (s : Shelf ε) (key : String) : Bool := s.entries.contains key

/-- The logic identifier that a lookup leads to; one that is given need not be held. -/
def keyOf? (s : Shelf ε) : Lookup → Option String
  | .key key => some key
  | .fingerprint fingerprint => s.holders.get? fingerprint

def find? (s : Shelf ε) (lookup : Lookup) : Option ε := (s.keyOf? lookup).bind s.get?

/-- Whether the logic identifier, or someone with the fingerprint, is held. -/
def has (s : Shelf ε) : Lookup → Bool
  | .key key => s.contains key
  | .fingerprint fingerprint => s.holders.contains fingerprint

/-- The entities in order of arrival. -/
def values (s : Shelf ε) : List ε := s.entries.values

variable [Entity ε]

/-- Note that the fingerprint of an entity is held under a key. -/
def hold (holders : SortedMap String String) (key : String) (e : ε) : SortedMap String String :=
  match Entity.fingerprint e with
  | some fingerprint => holders.insert fingerprint key
  | none => holders

/-- Forget who holds the fingerprint of an entity. -/
def forget (holders : SortedMap String String) (e : ε) : SortedMap String String :=
  match Entity.fingerprint e with
  | some fingerprint => holders.erase fingerprint
  | none => holders

/-- Write an entity under a key, in its place when the key is held, else as the last one. -/
def put (s : Shelf ε) (key : String) (e : ε) : Shelf ε :=
  ⟨s.entries.insert key e, hold s.holders key e⟩

/-- Write an entity at a place in the order. -/
def putAt (s : Shelf ε) (place : Nat) (key : String) (e : ε) : Shelf ε :=
  ⟨s.entries.insertAt place key e, hold s.holders key e⟩

/-- Take the entity under a key off the shelf. -/
def remove (s : Shelf ε) (key : String) : Option ε × Shelf ε :=
  match s.get? key with
  | none => (none, s)
  | some e => (some e, ⟨s.entries.erase key, forget s.holders e⟩)

/-- The entity with its present fingerprint, which nobody but `owner` may hold. -/
def admitted (c : Catalog) (s : Shelf ε) (owner key : String) (e : ε) : Except StoreError ε := do
  let e ← (Entity.stamped c e).mapError .entity
  match (Entity.fingerprint e).bind fun f => (s.holders.get? f).map fun holder => (f, holder) with
  | some (fingerprint, holder) =>
      if holder = owner then return e
      else throw (.uniqueness (Entity.kind e) fingerprint holder key)
  | none => return e

/-- An entity that takes the place of another one. -/
structure Replacement (ε : Type) where
  place : Nat
  source : ε
  /-- The logic identifier of the target. -/
  key : String
  target : ε

/-- Check whether a target may replace the entity under a key, which has to have the given
    identifier. -/
def replacement (c : Catalog) (s : Shelf ε) (sourceKey sourceId : String) (target : ε) :
    Except StoreError (Replacement ε) := do
  let some key := Entity.logicKey? target | throw (.update .targetNotEffective)
  match s.entries.indexOf? sourceKey, s.get? sourceKey with
  | some place, some source =>
      if Entity.id source ≠ some sourceId then
        throw (.update (.staleSourceId sourceId ((Entity.id source).getD "")))
      if key ≠ sourceKey && s.contains key then throw (.update (.targetExists key))
      if Entity.typeName source ≠ Entity.typeName target then
        throw (.update (.typeMismatch ((Entity.typeName source).getD "")
          ((Entity.typeName target).getD "")))
      let target ← admitted c s sourceKey key target
      return ⟨place, source, key, target⟩
  | _, _ => throw (.update (.sourceNotFound sourceKey))

/-- Let the target take the place of the entity under a key. -/
def replace (s : Shelf ε) (sourceKey : String) (r : Replacement ε) : Shelf ε :=
  (s.remove sourceKey).2.putAt r.place r.key r.target

end Shelf

end SchemaGraph
