import SchemaGraph.Schema.Catalog

/-! # Registries

A registry holds the current catalog and replaces it as a whole. A change is worked out on
a candidate, which becomes current only when every listener lets it pass; one that fails or
is refused leaves the current catalog as it was.
-/

namespace SchemaGraph

/-- A change of the catalog that is about to be made. -/
inductive Change where
  | putNode (name : String)
  | putEvent (key : EventKey)
  | removeNode (name : String)
  | removeEvent (key : EventKey)
  | reload
  deriving Repr, DecidableEq

def Change.text : Change → String
  | .putNode name => "put node " ++ name
  | .putEvent key => "put event " ++ key.text
  | .removeNode name => "remove node " ++ name
  | .removeEvent key => "remove event " ++ key.text
  | .reload => "reload"

/-- Why a registry does not make a change. -/
inductive RegistryError where
  | invalid (cause : CatalogError)
  /-- A listener gave this reason against the change. -/
  | rejected (change : Change) (reason : String)
  deriving Repr, DecidableEq

def RegistryError.message : RegistryError → String
  | .invalid cause => cause.message
  | .rejected change reason => "Registry change [" ++ change.text ++ "] rejected: " ++ reason

/-- What a listener says about a change and its candidate. -/
structure Verdict where
  note : String
  /-- The reason against the change, if there is one. -/
  refusal : Option String
  deriving Repr, DecidableEq

abbrev Listener := Change → Catalog → Verdict

/-- Ask the listeners in their order, up to and including the first that refuses. -/
def consult (change : Change) (candidate : Catalog) : List Listener → List String × Option String
  | [] => ([], none)
  | listener :: rest =>
      let verdict := listener change candidate
      match verdict.refusal with
      | some reason => ([verdict.note], some reason)
      | none =>
          let (notes, refusal) := consult change candidate rest
          (verdict.note :: notes, refusal)

/-- The current catalog and those who are asked about its changes. -/
structure Registry where
  current : Catalog := .empty
  listeners : List Listener := []
  deriving Inhabited

/-- What a change came to: its answer, the registry behind it, and what listeners noted. -/
structure Outcome (α : Type) where
  answer : Except RegistryError α
  registry : Registry
  notes : List String

namespace Registry

/-- Ask the listeners about a worked-out change, and make it when none refuses. -/
def settle {α : Type} (r : Registry) (change : Change)
    (workedOut : Except CatalogError (α × Catalog)) : Outcome α :=
  match workedOut with
  | .error cause => ⟨.error (.invalid cause), r, []⟩
  | .ok (answer, candidate) =>
      match consult change candidate r.listeners with
      | (notes, some reason) => ⟨.error (.rejected change reason), r, notes⟩
      | (notes, none) => ⟨.ok answer, { r with current := candidate }, notes⟩

def putNode (r : Registry) (d : NodeDefinition) (overwrite : Bool) : Outcome Unit :=
  r.settle (.putNode d.name) ((r.current.putNode d overwrite).map ((), ·))

def putEvent (r : Registry) (d : EventDefinition) (overwrite : Bool) : Outcome Unit :=
  r.settle (.putEvent d.key) ((r.current.putEvent d overwrite).map ((), ·))

/-- Remove a node type, if it is there, and every event type that touches it. -/
def removeNode (r : Registry) (name : String) : Outcome (Option NodeDefinition) :=
  r.settle (.removeNode name) (.ok (r.current.removeNode name))

def removeEvent (r : Registry) (key : EventKey) : Outcome (Option EventDefinition) :=
  r.settle (.removeEvent key) (.ok (r.current.removeEvent key))

/-- Replace the whole catalog; the answer is the one before it. -/
def reload (r : Registry) (c : Catalog) : Outcome Catalog := r.settle .reload (.ok (r.current, c))

end Registry

end SchemaGraph
