import SchemaGraph.Chain.Hop

/-! # Links

A link is a hop that starts at a certain node and whose direction is known. The links of an
alternative hang together: each starts where the one before it ends.
-/

namespace SchemaGraph.Chain

/-- One event of an alternative with the nodes at its near and far end. -/
structure Link where
  near : Term
  event : Term
  far : Term
  direction : Direction
  deriving Repr, DecidableEq

namespace Link

/-- The node at the left end of the event. -/
def left (l : Link) : Term :=
  match l.direction with
  | .fromLeft => l.near
  | .fromRight => l.far

/-- The node at the right end of the event. -/
def right (l : Link) : Term :=
  match l.direction with
  | .fromLeft => l.far
  | .fromRight => l.near

/-- Whether a type of the link has the wildcard for its name. -/
def isOpen (l : Link) : Bool := l.event.isWildcard || l.far.isWildcard

def terms (l : Link) : List Term := [l.near, l.event, l.far]

/-- The written form. -/
def text (l : Link) : String :=
  l.near.text ++ String.singleton l.direction.markers.1.char ++ l.event.text ++
    String.singleton l.direction.markers.2.char ++ l.far.text

end Link

/-- One way through a catalog that a chain describes. -/
abbrev Alternative := List Link

namespace Alternative

/-- The node at which an alternative ends that starts at the given one. -/
def endOf (start : Term) (links : Alternative) : Term :=
  match links.getLast? with
  | some link => link.far
  | none => start

/-- The links with their places, and whether a link follows. -/
def placed (links : Alternative) : List (Link × Nat × Bool) :=
  links.zipIdx.map fun (link, place) => (link, place, place + 1 < links.length)

end Alternative

end SchemaGraph.Chain
