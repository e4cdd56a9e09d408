import SchemaGraph.Entity.Basic

/-! # Faults of stores

Why a store does not take an entity in.
-/

namespace SchemaGraph

/-- Why an entity does not replace another one. -/
inductive UpdateFault where
  | targetNotEffective
  | sourceNotFound (key : String)
  /-- The caller expected another identifier than the store holds. -/
  | staleSourceId (expected actual : String)
  | targetExists (key : String)
  | typeMismatch (existing incoming : String)
  deriving Repr, DecidableEq

def UpdateFault.message : UpdateFault → String
  | .targetNotEffective => "Update target is not effective"
  | .sourceNotFound key => "Update source " ++ key ++ " not found"
  | .staleSourceId expected actual =>
      "Update source id is stale: expected " ++ expected ++ ", store holds " ++ actual
  | .targetExists key => "Update target " ++ key ++ " already exists"
  | .typeMismatch existing incoming =>
      "Update changes type from " ++ existing ++ " to " ++ incoming

/-- Why an operation of a store fails. -/
inductive StoreError where
  /-- Another entity of the kind has the same fingerprint. -/
  | uniqueness (kind fingerprint existing incoming : String)
  | update (fault : UpdateFault)
  | entity (cause : EntityError)
  deriving Repr, DecidableEq

def StoreError.message : StoreError → String
  | .uniqueness kind fingerprint existing incoming =>
      kind ++ " " ++ incoming ++ " has fingerprint " ++ fingerprint ++
        " already held by " ++ existing
  | .update fault => fault.message
  | .entity cause => cause.message

end SchemaGraph
