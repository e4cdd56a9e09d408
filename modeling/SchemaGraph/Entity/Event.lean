import SchemaGraph.Entity.Node

/-! # Events

An event is an entity that leads from a left to a right node. Both ends, each with the
type of its node, and the type of the event tell it apart from others.
-/

namespace SchemaGraph

/-- An end of an event: which node of which type. -/
structure Endpoint where
  id : Option String := none
  typeName : Option String := none
  deriving Repr, DecidableEq, Inhabited

namespace Endpoint

def named (typeName id : String) : Endpoint := ⟨some id, some typeName⟩

/-- The end at a node, as far as it is identified. -/
def ofNode (n : Node) : Endpoint := ⟨n.core.id, n.core.typeName⟩

/-- The logic identifier of the node. -/
def logicKey? (p : Endpoint) : Option String := do
  let typeName ← p.typeName
  let id ← p.id
  return typeName ++ id

/-- What the end adds to the basis of an event. -/
def basis? (p : Endpoint) : Option String := do
  let id ← p.id
  let typeName ← p.typeName
  return id ++ typeName

end Endpoint

/-- An event between two nodes. -/
structure Event where
  left : Endpoint := {}
  right : Endpoint := {}
  /-- Whether the event is a membership, as the catalog said when it was stored. -/
  membership : Option Bool := none
  core : Core := {}
  deriving Inhabited

namespace Event

def named (typeName id : String) : Event := { core := .named typeName id }

/-- An event that leads from one node to another. -/
def between (typeName id : String) (left right : Node) : Event :=
  { left := .ofNode left, right := .ofNode right, core := .named typeName id }

/-- The key of the definition of the event's type. -/
def definitionKey? (e : Event) : Option EventKey := do
  let event ← e.core.typeName
  let left ← e.left.typeName
  let right ← e.right.typeName
  return ⟨event, left, right⟩

/-- The definition of the event's type between the types of its ends. -/
def definition? (c : Catalog) (e : Event) : Option EventDefinition := e.definitionKey?.bind c.event?

instance : Entity Event where
  kind _ := "Event"
  core e := e.core
  withCore e core := { e with core }
  basis? e := do
    let typeName ← e.core.typeName
    let left ← e.left.basis?
    let right ← e.right.basis?
    return typeName ++ left ++ right
  uniqueIndex c e := ((e.definition? c).map EventDefinition.uniqueIndex).getD []
  displayKeys c e := ((e.definition? c).map EventDefinition.display).getD []
  core_withCore _ _ := rfl

def setLeft (e : Event) (left : Endpoint) : Event := { e with left, core := e.core.stale }

def setRight (e : Event) (right : Endpoint) : Event := { e with right, core := e.core.stale }

/-- The logic identifier of the left node, once the event is effective. -/
def leftKey? (e : Event) : Option String :=
  if Entity.isEffective e then e.left.logicKey? else none

/-- The logic identifier of the right node, once the event is effective. -/
def rightKey? (e : Event) : Option String :=
  if Entity.isEffective e then e.right.logicKey? else none

/-- The logic identifiers of both ends, left before right. -/
def endKeys (e : Event) : List String := e.leftKey?.toList ++ e.rightKey?.toList

def isMember (e : Event) : Bool := e.membership.getD false

/-- The event with the membership that the catalog gives its type. -/
def withMembership (c : Catalog) (e : Event) : Event :=
  { e with membership := some ((e.definition? c).any EventDefinition.isMember) }

/-- A copy for other hands, without fingerprint. -/
def detached (e : Event) : Event := { e with core := e.core.stale }

end Event

end SchemaGraph
