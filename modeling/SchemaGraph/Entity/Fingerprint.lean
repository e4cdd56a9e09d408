import SchemaGraph.Entity.Basic
import SchemaGraph.Digest.Sha256
import SchemaGraph.Value.Text

/-! # Fingerprints

The fingerprint of an entity is the digest of its basis and of the values in the unique
index of its type, or of its basis and identifier where there is no index. It cannot be
determined when a value is missing.
-/

namespace SchemaGraph.Entity

variable {ε : Type} [Entity ε]

/-- The value for an entry of the unique index: that of the property, or for a chain that
    of the associated property. -/
def indexValue? (c : Catalog) (index : List String) (properties : PropertyMap) (entry : String) :
    Except EntityError (Option Value) :=
  match properties.get? entry with
  | some value => .ok (some value)
  | none =>
      if Chain.hasMarker entry then do
        let name ← (Chain.associatedProperty? c index).mapError .chain
        return name.bind properties.get?
      else .ok none

/-- The texts of the values for entries of the unique index, none if a value is missing. -/
def indexText? (c : Catalog) (index : List String) (properties : PropertyMap) :
    List String → Except EntityError (Option String)
  | [] => .ok (some "")
  | entry :: rest => do
      match ← indexValue? c index properties entry with
      | none => return none
      | some value =>
          let text ← indexText? c index properties rest
          return text.map fun text => value.fingerprintText ++ text

/-- The text of which the fingerprint is the digest. -/
def fingerprintText? (c : Catalog) (e : ε) : Except EntityError (Option String) :=
  match basis? e, id e with
  | some basis, some id =>
      let index := uniqueIndex c e
      if index.isEmpty then .ok (some (basis ++ id))
      else do
        let text ← indexText? c index (properties e) index
        return text.map fun text => basis ++ text
  | _, _ => .error (notEffective e)

/-- The fingerprint as it is now. -/
def computeFingerprint (c : Catalog) (e : ε) : Except EntityError (Option String) := do
  let text ← fingerprintText? c e
  return text.map Digest.Sha256.ofText

/-- The entity with the given fingerprint. -/
def withFingerprint (e : ε) (fingerprint : Option String) : ε :=
  modifyCore (fun c => { c with fingerprint }) e

/-- The entity with its fingerprint as it is now. -/
def stamped (c : Catalog) (e : ε) : Except EntityError ε := do
  let fingerprint ← computeFingerprint c e
  return withFingerprint e fingerprint

/-- The entity with its held fingerprint, or with a new one where it holds none. -/
def resolved (c : Catalog) (e : ε) : Except EntityError ε :=
  if (fingerprint e).isSome then .ok e else stamped c e

/-- The values of the display properties one behind the other. -/
def display (c : Catalog) (e : ε) : String :=
  String.join <| (displayKeys c e).map fun key =>
    match property? e key with
    | some value => value.fingerprintText
    | none => "null"

end SchemaGraph.Entity
