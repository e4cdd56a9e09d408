import SchemaGraph.Chain.Link
import SchemaGraph.Schema.Catalog

/-! # Expansion in a catalog

A hop with a wildcard, or without a direction, stands for every fitting event type of the
catalog. All alternatives go on hop by hop; one that finds no event type ends there.
-/

namespace SchemaGraph.Chain

/-- The link over an event type in the given direction, if it fits the hop. -/
def linkOver? (near : Term) (hop : Hop) (direction : Direction) (d : EventDefinition) :
    Option Link :=
  let (nearType, farType) := match direction with
    | .fromLeft => (d.key.left, d.key.right)
    | .fromRight => (d.key.right, d.key.left)
  if nearType = near.name && hop.event.admits d.key.event && hop.far.admits farType then
    some ⟨near, hop.event.resolved d.key.event, hop.far.resolved farType, direction⟩
  else none

/-- The links that a hop allows in one direction, in the order of the event types. -/
def linksToward (definitions : List EventDefinition) (near : Term) (hop : Hop)
    (direction : Direction) : List Link :=
  if hop.direction = none || hop.direction = some direction then
    definitions.filterMap (linkOver? near hop direction)
  else []

/-- The links by which a hop leads on from a node. A concrete hop is one link as it stands;
    for any other the type of the node has to be defined. -/
def successors (c : Catalog) (near : Term) (hop : Hop) : Except ChainError (List Link) :=
  match hop.isConcrete, hop.direction with
  | true, some direction => .ok [⟨near, hop.event, hop.far, direction⟩]
  | _, _ =>
      if (c.node? near.name).isNone then .error (.undefinedNode near.name)
      else
        let definitions := c.incidentTo near.name
        .ok (linksToward definitions near hop .fromLeft ++
          linksToward definitions near hop .fromRight)

/-- Alternatives that go on, and those that ended on the way. -/
structure Spread where
  going : List Alternative
  ended : List Alternative
  deriving Repr, DecidableEq

/-- Lead every alternative over one hop. -/
def spreadHop (c : Catalog) (start : Term) (hop : Hop) : List Alternative → Except ChainError Spread
  | [] => .ok ⟨[], []⟩
  | branch :: rest => do
      let links ← successors c (branch.endOf start) hop
      let others ← spreadHop c start hop rest
      if links.isEmpty then return { others with ended := branch :: others.ended }
      else return { others with going := links.map (fun link => branch ++ [link]) ++ others.going }

/-- Lead alternatives over several hops; those that ended earlier come first. -/
def spread (c : Catalog) (start : Term) : List Hop → List Alternative → Except ChainError Spread
  | [], branches => .ok ⟨branches, []⟩
  | hop :: hops, branches => do
      let here ← spreadHop c start hop branches
      let later ← spread c start hops here.going
      return { later with ended := here.ended ++ later.ended }

/-- All alternatives of a route: the whole ones, then those that ended behind some link. -/
def alternativesOf (c : Catalog) (route : Route) : Except ChainError (List Alternative) := do
  let s ← spread c route.start route.hops [[]]
  return (s.going ++ s.ended).filter fun links => !links.isEmpty

end SchemaGraph.Chain
