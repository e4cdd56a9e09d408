import SchemaGraph.Chain.Basic

/-! # Associated properties

A unique index may hold one chain besides its properties. Its value is that of a property
named after the type that the chain first leads to.
-/

namespace SchemaGraph.Chain

/-- The associated property of a type. -/
def associatedProperty (type : String) : String := "unique" ++ type ++ "Id"

/-- The associated property of a unique index, if a chain in it names one. -/
def associatedProperty? (c : Catalog) (uniqueIndex : List String) :
    Except ChainError (Option String) :=
  match uniqueIndex.filter hasMarker with
  | [] => .ok none
  | text :: extra :: _ => .error (.associate (.twoChains text extra))
  | [text] => do
      match ← ofText? c text with
      | none => return none
      | some chain =>
          match chain.alternatives.head?.bind List.head? with
          | some link => return some (associatedProperty link.far.name)
          | none => throw (.associate (.nothingFound text))

/-- The type after which a property is named, when its name has no line feed. -/
def associatedType? (property : String) : Option String := do
  let rest ← "unique".toList.isPrefixOf? property.toList
  let type ← "Id".toList.isSuffixOf? rest
  if type.isEmpty || type.contains '\n' then none else some (String.ofList type)

/-- The definition of the type after which a property is named. -/
def associatedNode? (c : Catalog) (property : String) : Option NodeDefinition :=
  (associatedType? property).bind c.node?

/-- Whether a property is named after a type of the catalog. -/
def isAssociated (c : Catalog) (property : String) : Bool := (associatedNode? c property).isSome

end SchemaGraph.Chain
