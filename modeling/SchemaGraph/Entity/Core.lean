import SchemaGraph.Entity.Directive
import SchemaGraph.Time.Instant
import SchemaGraph.Value.Basic

/-! # What nodes and events share

An entity of either kind has an identifier, a type, times, directives and properties. It
may also hold the fingerprint that was computed from these when it last was.
-/

namespace SchemaGraph

/-- The part that nodes and events have in common. -/
structure Core where
  id : Option String := none
  /-- The fingerprint that was computed last, gone after a change. -/
  fingerprint : Option String := none
  typeName : Option String := none
  created : Option Time.Instant := none
  updated : Option Time.Instant := none
  directives : Directives := {}
  properties : PropertyMap := .empty
  deriving Inhabited

namespace Core

/-- A core of a type with an identifier and nothing else. -/
def named (typeName id : String) : Core := { id := some id, typeName := some typeName }

/-- The core without its fingerprint. -/
def stale (c : Core) : Core := { c with fingerprint := none }

end Core

end SchemaGraph
