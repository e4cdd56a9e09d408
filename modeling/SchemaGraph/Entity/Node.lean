import SchemaGraph.Entity.Basic

/-! # Nodes

A node is an entity of a node type. Its type tells it apart from the nodes of other types.
-/

namespace SchemaGraph

/-- A node, and below it the nodes that its user has grouped by event types. -/
structure Node where
  core : Core
  children : List (EventDefinition × List Node) := []

namespace Node

instance : Inhabited Node := ⟨⟨{}, []⟩⟩

def ofCore (core : Core) : Node := ⟨core, []⟩

def named (typeName id : String) : Node := ofCore (.named typeName id)

/-- The definition of the type of the node. -/
def definition? (c : Catalog) (n : Node) : Option NodeDefinition := n.core.typeName.bind c.node?

instance : Entity Node where
  kind _ := "Node"
  core n := n.core
  withCore n core := { n with core }
  basis? n := n.core.typeName
  uniqueIndex c n := ((n.definition? c).map NodeDefinition.uniqueIndex).getD []
  displayKeys c n := ((n.definition? c).map NodeDefinition.display).getD []
  core_withCore _ _ := rfl

def setTypeName (n : Node) (typeName : String) : Node :=
  { n with core := { n.core.stale with typeName := some typeName } }

/-- A copy for other hands, without children and fingerprint. -/
def detached (n : Node) : Node := ofCore n.core.stale

/-- A copy without children that keeps the fingerprint. -/
def duplicate (n : Node) : Node := ofCore n.core

/-- Add a node to the group of an event type, behind the others. -/
def addChild (definition : EventDefinition) (child : Node) :
    List (EventDefinition × List Node) → List (EventDefinition × List Node)
  | [] => [(definition, [child])]
  | group :: rest =>
      if group.1.sameType definition then (group.1, group.2 ++ [child]) :: rest
      else group :: addChild definition child rest

def putChild (n : Node) (definition : EventDefinition) (child : Node) : Node :=
  { n with children := addChild definition child n.children }

end Node

end SchemaGraph
