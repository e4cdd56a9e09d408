import SchemaGraph.Chain.Basic
import SchemaGraph.Schema.Tree
import SchemaGraph.Store.Basic
import SchemaGraph.Data.Json.Printer
import SchemaGraph.Command.Request

/-! # Reports

What the command prints about a chain and about a store, as lines of text or as one JSON
object.
-/

namespace SchemaGraph.Command

open Data (Tree)

/-- Text lines, each of them ended. -/
def ofLines (lines : List String) : String := String.join (lines.map (· ++ "\n"))

/-- The same facts as lines and as a tree. -/
structure Report where
  lines : List String
  tree : Tree

def Report.text (r : Report) : ReportFormat → String
  | .text => ofLines r.lines
  | .json => ofLines [Data.Json.printWide 0 r.tree]

/-- The alternatives of a chain in their order, and its labels. -/
def chainReport (c : Chain) : Report :=
  let alternatives := c.alternatives.map fun links => links.map Chain.Link.text
  let labels := c.labels.entries
  { lines :=
      (if alternatives.isEmpty then ["(no matching chain)"] else []) ++
      (alternatives.zipIdx 1).map (fun (links, number) =>
        toString number ++ ": " ++ String.intercalate " " links) ++
      labels.map (fun (label, typeName) => "  " ++ label ++ " -> " ++ typeName)
    tree := keyedTree [
      ("alternatives", .list (alternatives.map textsTree)),
      ("labels", keyedTree (labels.map fun (label, typeName) => (label, .text typeName)))] }

def countTree (n : Nat) : Tree := .integer (Int64.ofNat n)

/-- How many nodes a store holds, and how many events of each type; the tree has the types
    in order of their names. -/
def storeReport (s : Store) : Report :=
  let counts := s.groupedEvents.entries.map fun (typeName, events) => (typeName, events.length)
  { lines :=
      ["nodes: " ++ toString s.nodes.entries.size,
        "events: " ++ toString s.events.entries.size] ++
      counts.map (fun (typeName, count) => "  " ++ typeName ++ ": " ++ toString count)
    tree := keyedTree [
      ("events", keyedTree ((SortedMap.ofList counts).mapValues countTree).entries),
      ("nodes", countTree s.nodes.entries.size)] }

end SchemaGraph.Command
