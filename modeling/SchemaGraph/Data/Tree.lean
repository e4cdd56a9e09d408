/-! # Data trees

What a JSON or YAML text says before its parts are given types. Lists and maps keep
their order, and maps keep repeated keys, because it depends on the wanted type what
these mean.
-/

namespace SchemaGraph.Data

/-- A node of a data text. -/
inductive Tree where
  | null
  | bool (value : Bool)
  | integer (value : Int64)
  | real (value : Float)
  | text (value : String)
  /-- A scalar written without quotes, whose type depends on what is wanted. -/
  | plain (value : String)
  /-- A scalar of right form that denotes nothing: half a surrogate pair, or a number
      beyond all doubles. It may be passed over but not read. -/
  | unreadable
  | list (items : List Tree)
  | map (entries : List (Tree × Tree))
  deriving Repr

namespace Tree

/-- An integer, if a signed 64-bit word holds it. -/
def ofInt? (n : Int) : Option Tree :=
  if Int64.minValue.toInt ≤ n ∧ n ≤ Int64.maxValue.toInt then some (.integer (Int64.ofInt n))
  else none

mutual
/-- How many lists and maps lie within each other. -/
def depth : Tree → Nat
  | .list items => listDepth items + 1
  | .map entries => entriesDepth entries + 1
  | _ => 0

def listDepth : List Tree → Nat
  | [] => 0
  | item :: rest => max item.depth (listDepth rest)

def entriesDepth : List (Tree × Tree) → Nat
  | [] => 0
  | (key, value) :: rest => max (max key.depth value.depth) (entriesDepth rest)
end

mutual
/-- Whether all scalars denote something. -/
def isReadable : Tree → Bool
  | .unreadable => false
  | .list items => listReadable items
  | .map entries => entriesReadable entries
  | _ => true

def listReadable : List Tree → Bool
  | [] => true
  | item :: rest => item.isReadable && listReadable rest

def entriesReadable : List (Tree × Tree) → Bool
  | [] => true
  | (key, value) :: rest => key.isReadable && value.isReadable && entriesReadable rest
end

end Tree

end SchemaGraph.Data
