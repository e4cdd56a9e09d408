import SchemaGraph.Text.Position

/-! # Faults of chains

Why a text is no chain, or names none in a catalog.
-/

namespace SchemaGraph.Chain

/-- Why the marks around an event show no direction. -/
inductive PathFault where
  | opensRight
  | closesLeft
  | pointsBothWays
  deriving Repr, DecidableEq

def PathFault.reason : PathFault → String
  | .opensRight => "a hop cannot open with '>'"
  | .closesLeft => "a hop cannot close with '<'"
  | .pointsBothWays => "'<' and '>' point both ways"

/-- Why a unique index names no associated property. -/
inductive AssociateFault where
  | twoChains (first second : String)
  /-- The chain has no alternative in the catalog. -/
  | nothingFound (chain : String)
  deriving Repr, DecidableEq

def AssociateFault.reason : AssociateFault → String
  | .twoChains first second =>
      "unique index lists more than one chain: [" ++ first ++ "] and [" ++ second ++ "]"
  | .nothingFound chain => "chain [" ++ chain ++ "] resolves to nothing"

/-- Why a text gives no chain. -/
inductive ChainError where
  /-- No chain goes on at this place as the text does. -/
  | malformed (position : Text.Position)
  | path (chain event : String) (fault : PathFault)
  /-- The terms do not make up whole hops. -/
  | incomplete (chain : String)
  | duplicateLabel (label existing incoming : String)
  | wildcardStart (chain : String)
  | undefinedNode (name : String)
  | associate (fault : AssociateFault)
  deriving Repr, DecidableEq

def ChainError.message : ChainError → String
  | .malformed position =>
      "Chain syntax: line " ++ toString position.line ++ ", column " ++ toString position.column
  | .path chain event fault =>
      "Chain [" ++ chain ++ "] has an invalid path around " ++ event ++ ": " ++ fault.reason
  | .incomplete chain => "Chain [" ++ chain ++ "] is incomplete"
  | .duplicateLabel label existing incoming =>
      "Label " ++ label ++ " is bound to both " ++ existing ++ " and " ++ incoming
  | .wildcardStart chain => "Chain [" ++ chain ++ "] cannot start with a wildcard"
  | .undefinedNode name => "Node type " ++ name ++ " is not defined"
  | .associate fault => "Associative unique property: " ++ fault.reason

end SchemaGraph.Chain
