import SchemaGraph.Collections.OrderedMap
import SchemaGraph.Collections.SortedMap

/-! # Property values

What a property of a node or an event may hold.
-/

namespace SchemaGraph

/-- A value; the entries of a map stand in the order of their keys, each key once. -/
inductive Value where
  | null
  | boolean (value : Bool)
  | integer (value : Int64)
  | real (value : Float)
  | text (value : String)
  | array (items : List Value)
  | map (entries : List (String × Value))
  deriving Repr, Inhabited

namespace Value

/-- The map with the given entries; the last value of a repeated key counts. -/
def ofEntries (entries : List (String × Value)) : Value := .map (SortedMap.ofList entries).entries

def kind : Value → String
  | .null => "Null"
  | .boolean _ => "Boolean"
  | .integer _ => "Integer"
  | .real _ => "Float"
  | .text _ => "String"
  | .array _ => "Array"
  | .map _ => "Map"

def isNull : Value → Bool
  | .null => true
  | _ => false

def asText? : Value → Option String
  | .text value => some value
  | _ => none

def asInteger? : Value → Option Int64
  | .integer value => some value
  | _ => none

/-- A real, or the real nearest to an integer. -/
def asReal? : Value → Option Float
  | .real value => some value
  | .integer value => some (Float.ofInt value.toInt)
  | _ => none

def asBoolean? : Value → Option Bool
  | .boolean value => some value
  | _ => none

def asArray? : Value → Option (List Value)
  | .array items => some items
  | _ => none

def asMap? : Value → Option (List (String × Value))
  | .map entries => some entries
  | _ => none

end Value

/-- Named values in the order in which the names came. -/
abbrev PropertyMap := OrderedMap String Value

end SchemaGraph
