import SchemaGraph.Chain.Scanner
import SchemaGraph.Chain.Error

/-! # Hops as written

A chain starts at a term and goes on in hops, each over an event to a far term. The marks
around the event tell at which of its ends the hop starts, or leave it open.
-/

namespace SchemaGraph.Chain

/-- The end of an event at which a hop starts. -/
inductive Direction where
  /-- The near node is the left end, `A-E>B`. -/
  | fromLeft
  /-- The near node is the right end, `A<E-B`. -/
  | fromRight
  deriving Repr, DecidableEq

/-- The marks before and behind the event. -/
def Direction.markers : Direction → Marker × Marker
  | .fromLeft => (.line, .rightHead)
  | .fromRight => (.leftHead, .line)

/-- An event and a far node as written, and the direction if it is fixed. -/
structure Hop where
  event : Term
  far : Term
  direction : Option Direction
  deriving Repr, DecidableEq

/-- Whether the hop says all there is to say, so that no catalog is asked about it. -/
def Hop.isConcrete (h : Hop) : Bool :=
  !h.event.isWildcard && !h.far.isWildcard && h.direction.isSome

/-- The direction that two marks show. -/
def directionOf (before behind : Marker) : Except PathFault (Option Direction) :=
  match before, behind with
  | .line, .line => .ok none
  | .line, .rightHead => .ok (some .fromLeft)
  | .leftHead, .line => .ok (some .fromRight)
  | .rightHead, _ => .error .opensRight
  | _, .leftHead => .error .closesLeft
  | .leftHead, .rightHead => .error .pointsBothWays

/-- The hops of the marks and terms behind the first term. -/
def hopsOf (chain : String) : List Marker → List Term → Except ChainError (List Hop)
  | before :: behind :: markers, event :: far :: terms => do
      let direction ← (directionOf before behind).mapError (.path chain event.text)
      let hops ← hopsOf chain markers terms
      return ⟨event, far, direction⟩ :: hops
  | _, _ => .ok []

/-- A chain as written: where it starts and how it goes on. -/
structure Route where
  start : Term
  hops : List Hop
  deriving Repr, DecidableEq

namespace Route

/-- The route of tokens; terms and hops have to fit before their content is looked at. -/
def ofTokens (chain : String) (tokens : Tokens) : Except ChainError Route :=
  if tokens.terms.length < 3 || tokens.terms.length % 2 = 0 then .error (.incomplete chain)
  else
    match tokens.terms with
    | [] => .error (.incomplete chain)
    | start :: terms =>
        if start.isWildcard then .error (.wildcardStart chain)
        else do
          let hops ← hopsOf chain tokens.markers terms
          return ⟨start, hops⟩

/-- The route that a text writes. -/
def ofText (text : String) : Except ChainError Route :=
  match scan text.toList with
  | .error passed => .error (.malformed (.ofOffset text.toList passed))
  | .ok tokens => ofTokens text tokens

end Route

end SchemaGraph.Chain
