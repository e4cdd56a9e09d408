/-! # Directives

Instructions that an entity carries to whoever persists it. They say nothing about the
entity itself.
-/

namespace SchemaGraph

/-- What is to be done with a persisted entity. -/
inductive Operation where
  | create
  | update
  /-- Create unless an entity with the same unique properties exists, else update. -/
  | createOrUpdate
  /-- Create unless an entity with the same unique properties exists. -/
  | createNotExist
  | delete
  /-- Match on all properties. -/
  | query
  /-- Match on unique properties. -/
  | matching
  deriving Repr, DecidableEq

namespace Operation

/-- All operations in order. -/
def all : List Operation :=
  [.create, .update, .createOrUpdate, .createNotExist, .delete, .query, .matching]

theorem mem_all (o : Operation) : o ∈ all := by cases o <;> decide

def name : Operation → String
  | .create => "create"
  | .update => "update"
  | .createOrUpdate => "createOrUpdate"
  | .createNotExist => "createNotExist"
  | .delete => "delete"
  | .query => "query"
  | .matching => "match"

def ofName? : String → Option Operation
  | "create" => some .create
  | "update" => some .update
  | "createOrUpdate" => some .createOrUpdate
  | "createNotExist" => some .createNotExist
  | "delete" => some .delete
  | "query" => some .query
  | "match" => some .matching
  | _ => none

theorem ofName?_name (o : Operation) : ofName? o.name = some o := by cases o <;> rfl

end Operation

/-- What may not be done with an entity. -/
structure Authority where
  editDisabled : Bool := false
  deleteDisabled : Bool := false
  propertiesDisabled : List String := []
  deriving Repr, DecidableEq

/-- The directives of an entity. -/
structure Directives where
  operation : Option Operation := none
  deleteEnforced : Option Bool := none
  createsWithOwnId : Option Bool := none
  authority : Option Authority := none
  syncLock : Option Bool := none
  deriving Repr, DecidableEq, Inhabited

/-- Whether nothing is asked. -/
def Directives.isEmpty (d : Directives) : Bool := d = {}

end SchemaGraph
