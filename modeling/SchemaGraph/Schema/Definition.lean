import SchemaGraph.Collections.Bisection
import SchemaGraph.Collections.SortedMap

/-! # Definitions of node and event types

A node definition says which properties make the nodes of a type unique and which ones
show them. An event definition does the same for the events between two node types, and
says what its ends mean for each other.
-/

namespace SchemaGraph

/-- A declared node type. -/
structure NodeDefinition where
  name : String := ""
  title : Option String := none
  /-- The properties whose values show a node. -/
  display : List String := []
  namespaces : List String := []
  extensions : List String := []
  /-- The properties and chains whose values make a node unique. -/
  uniqueIndex : List String := []
  deriving Repr, DecidableEq, Inhabited

/-- What an event type is told apart by: its name and the node types at its ends. -/
structure EventKey where
  event : String
  left : String
  right : String
  deriving Repr, DecidableEq, Inhabited

/-- Which ends of an event cannot be without it. -/
inductive Required where
  | left
  | right
  | both
  | neither
  deriving Repr, DecidableEq, Inhabited

/-- A declared event type between two node types. -/
structure EventDefinition where
  key : EventKey := default
  title : Option String := none
  /-- The properties whose values show an event. -/
  display : List String := []
  namespaces : List String := []
  /-- The properties and chains whose values make an event unique. -/
  uniqueIndex : List String := []
  isMember : Bool := false
  isLeftMaster : Bool := false
  isRightMaster : Bool := false
  required : Required := .neither
  readonly : Bool := false
  deriving Repr, DecidableEq, Inhabited

/-- Texts in rising order. -/
def sortedTexts (texts : List String) : List String := texts.mergeSort (· ≤ ·)

namespace EventKey

/-- The order of event types: by event, then left, then right type. -/
def order : EventKey → EventKey → Ordering :=
  compareLex (compareOn event) (compareLex (compareOn left) (compareOn right))

instance : Ord EventKey := ⟨order⟩

instance : Std.TransOrd EventKey :=
  inferInstanceAs (Std.TransCmp
    (compareLex (compareOn event) (compareLex (compareOn left) (compareOn right))))

instance : Std.LawfulEqOrd EventKey where
  eq_of_compare {a b} h := by
    have same : a.event = b.event ∧ a.left = b.left ∧ a.right = b.right := by
      obtain ⟨event, ends⟩ := Ordering.then_eq_eq.mp h
      obtain ⟨left, right⟩ := Ordering.then_eq_eq.mp ends
      exact ⟨Std.compare_eq_iff_eq.mp event, Std.compare_eq_iff_eq.mp left,
        Std.compare_eq_iff_eq.mp right⟩
    cases a; cases b
    simpa using same

/-- The written form `left-event>right`. -/
def text (k : EventKey) : String := k.left ++ "-" ++ k.event ++ ">" ++ k.right

/-- Whether a node type is at one of the ends. -/
def touches (k : EventKey) (node : String) : Bool := k.left = node || k.right = node

/-- The type at the other end than `node`; the left one when `node` is at neither. -/
def target (k : EventKey) (node : String) : String := if node = k.left then k.right else k.left

end EventKey

namespace NodeDefinition

/-- The definition with its unique index and its namespaces in rising order. -/
def normalized (d : NodeDefinition) : NodeDefinition :=
  { d with uniqueIndex := sortedTexts d.uniqueIndex, namespaces := sortedTexts d.namespaces }

/-- Whether a normalized definition lists the namespace. -/
def inNamespace (d : NodeDefinition) (space : String) : Bool :=
  Bisection.meets d.namespaces.toArray space

end NodeDefinition

namespace EventDefinition

/-- The definition with its unique index and its namespaces in rising order. -/
def normalized (d : EventDefinition) : EventDefinition :=
  { d with uniqueIndex := sortedTexts d.uniqueIndex, namespaces := sortedTexts d.namespaces }

def touches (d : EventDefinition) (node : String) : Bool := d.key.touches node

/-- Whether every node of the type takes part in the event. -/
def requires (d : EventDefinition) (node : String) : Bool :=
  (d.key.left = node && (d.required = .left || d.required = .both)) ||
    (d.key.right = node && (d.required = .right || d.required = .both))

/-- Whether the type is the member side of a membership. -/
def hasMember (d : EventDefinition) (node : String) : Bool := d.isMember && d.key.left = node

/-- Whether the type is a master in the event. -/
def hasMaster (d : EventDefinition) (node : String) : Bool :=
  (d.key.left = node && d.isLeftMaster) || (d.key.right = node && d.isRightMaster)

/-- Definitions under one key define the same event type, whatever they say of it. -/
def sameType (d e : EventDefinition) : Bool := d.key = e.key

end EventDefinition

end SchemaGraph
