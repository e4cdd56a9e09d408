import SchemaGraph.Data.Tree
import SchemaGraph.Data.Json.Quotation
import SchemaGraph.Decimal.Layout

/-! # Writing JSON text

The compact text of a tree: no spaces, keys in their order, characters beyond ASCII as
they are.
-/

namespace SchemaGraph.Data.Json

/-- Reals keep a point, go over to an exponent below `10 ^ -5` and from `10 ^ 16` on, and
    are nothing when they are no number. -/
def realLayout : Decimal.Layout where
  tie := .even
  positional := some (-5, 15)
  pointed := true
  nan := "null"
  infinity := "null"
  negativeInfinity := "null"

def keyText : Tree → String
  | .text value => value
  | .plain value => value
  | _ => ""

mutual
/-- The compact text of a tree. -/
def print : Tree → String
  | .null => "null"
  | .bool value => if value then "true" else "false"
  | .integer value => toString value.toInt
  | .real value => realLayout.write value
  | .text value => quotation value
  | .plain value => quotation value
  | .unreadable => "null"
  | .list items => "[" ++ String.intercalate "," (printItems items) ++ "]"
  | .map entries => "\x7b" ++ String.intercalate "," (printEntries entries) ++ "\x7d"

def printItems : List Tree → List String
  | [] => []
  | item :: rest => print item :: printItems rest

def printEntries : List (Tree × Tree) → List String
  | [] => []
  | (key, value) :: rest => (quotation (keyText key) ++ ":" ++ print value) :: printEntries rest
end

/-- A line break and two spaces for each enclosing list or map. -/
def newLine (level : Nat) : String := "\n" ++ String.ofList (List.replicate (2 * level) ' ')

mutual
/-- The text of a tree with every item and entry on a line of its own; empty lists and
    maps stay on one line. -/
def printWide (level : Nat) : Tree → String
  | .list (item :: rest) =>
      "[" ++ newLine (level + 1) ++
        String.intercalate ("," ++ newLine (level + 1))
          (printWideItems (level + 1) (item :: rest)) ++
        newLine level ++ "]"
  | .map (entry :: rest) =>
      "\x7b" ++ newLine (level + 1) ++
        String.intercalate ("," ++ newLine (level + 1))
          (printWideEntries (level + 1) (entry :: rest)) ++
        newLine level ++ "\x7d"
  | t => print t

def printWideItems (level : Nat) : List Tree → List String
  | [] => []
  | item :: rest => printWide level item :: printWideItems level rest

def printWideEntries (level : Nat) : List (Tree × Tree) → List String
  | [] => []
  | (key, value) :: rest =>
      (quotation (keyText key) ++ ": " ++ printWide level value) :: printWideEntries level rest
end

end SchemaGraph.Data.Json
