import SchemaGraph.Value.Basic
import SchemaGraph.Data.Typed

/-! # Property values as data trees

Every value has a tree. A tree denotes a value when all its scalars denote something and
the keys of its maps are texts; a scalar without quotes first takes the type it looks
like.
-/

namespace SchemaGraph.Value

open Data (Tree)

mutual
def toTree : Value → Tree
  | .null => .null
  | .boolean value => .bool value
  | .integer value => .integer value
  | .real value => .real value
  | .text value => .text value
  | .array items => .list (itemTrees items)
  | .map entries => .map (entryTrees entries)

def itemTrees : List Value → List Tree
  | [] => []
  | item :: rest => item.toTree :: itemTrees rest

def entryTrees : List (String × Value) → List (Tree × Tree)
  | [] => []
  | (key, value) :: rest => (.text key, value.toTree) :: entryTrees rest
end

mutual
/-- The value that a tree of typed scalars denotes. -/
def ofTyped? : Tree → Option Value
  | .null => some .null
  | .bool value => some (.boolean value)
  | .integer value => some (.integer value)
  | .real value => some (.real value)
  | .text value => some (.text value)
  | .plain _ => none
  | .unreadable => none
  | .list items => (itemsOfTyped? items).map .array
  | .map entries => (entriesOfTyped? entries).map ofEntries

def itemsOfTyped? : List Tree → Option (List Value)
  | [] => some []
  | item :: rest =>
      match ofTyped? item, itemsOfTyped? rest with
      | some value, some values => some (value :: values)
      | _, _ => none

def entriesOfTyped? : List (Tree × Tree) → Option (List (String × Value))
  | [] => some []
  | (.text key, value) :: rest =>
      match ofTyped? value, entriesOfTyped? rest with
      | some value, some entries => some ((key, value) :: entries)
      | _, _ => none
  | _ => none
end

/-- The value that a tree denotes. -/
def ofTree? (t : Tree) : Option Value := ofTyped? t.resolve

end SchemaGraph.Value
