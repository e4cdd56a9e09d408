import SchemaGraph.Chain.Expansion
import SchemaGraph.Text.Blank

/-! # Chains

A chain is what a text stands for in a catalog: its alternatives, and the type that each
label names throughout all of them.
-/

namespace SchemaGraph

open Chain (Alternative ChainError Route Term)

/-- The alternatives of a chain, and the type names that its labels stand for. -/
structure Chain where
  alternatives : List Alternative
  labels : SortedMap String String
  deriving Repr, DecidableEq

namespace Chain

/-- Bind the label of one more term. -/
def bindTerm (labels : SortedMap String String) (t : Term) :
    Except ChainError (SortedMap String String) :=
  match t.label with
  | none => .ok labels
  | some label =>
      match labels.get? label with
      | some existing =>
          if existing = t.name then .ok labels
          else .error (.duplicateLabel label existing t.name)
      | none => .ok (labels.insert label t.name)

/-- The labels of all terms; one label names one type only. -/
def bindLabels (alternatives : List Alternative) : Except ChainError (SortedMap String String) :=
  (alternatives.flatten.flatMap Link.terms).foldlM bindTerm .empty

/-- The chain of a route. -/
def ofRoute (c : Catalog) (route : Route) : Except ChainError Chain := do
  let alternatives ← alternativesOf c route
  let labels ← bindLabels alternatives
  return ⟨alternatives, labels⟩

/-- The chain of a text; a blank text has none. -/
def ofText? (c : Catalog) (text : String) : Except ChainError (Option Chain) :=
  if Text.isBlankText text then .ok none
  else do
    let chain ← ofRoute c (← Route.ofText text)
    return some chain

end Chain

end SchemaGraph
