/-! # Terms of a chain

A chain names node and event types by terms. A term may carry a label; a name without one
is its own label.
-/

namespace SchemaGraph.Chain

/-- The name that stands for any type. -/
def wildcard : String := "*"

/-- A type name or the wildcard, with the label it goes by. -/
structure Term where
  label : Option String
  name : String
  deriving Repr, DecidableEq, Inhabited

namespace Term

/-- The term written with a label or without. -/
def written (label : Option String) (name : String) : Term :=
  match label with
  | some label => ⟨some label, name⟩
  | none => ⟨if name = wildcard then none else some name, name⟩

def isWildcard (t : Term) : Bool := t.name = wildcard

/-- Whether the term admits a type of the given name. -/
def admits (t : Term) (name : String) : Bool := t.isWildcard || t.name = name

/-- The term under the same label with the name of a found type. -/
def resolved (t : Term) (name : String) : Term := { t with name }

/-- The written form, in which a label that equals the name is left out. -/
def text (t : Term) : String :=
  match t.label with
  | some label => if label = t.name then t.name else label ++ ":" ++ t.name
  | none => t.name

end Term

/-- The marks between the terms of a chain. -/
inductive Marker where
  /-- A line, `-`. -/
  | line
  /-- A head that points right, `>`. -/
  | rightHead
  /-- A head that points left, `<`. -/
  | leftHead
  deriving Repr, DecidableEq

namespace Marker

def char : Marker → Char
  | .line => '-'
  | .rightHead => '>'
  | .leftHead => '<'

def ofChar? : Char → Option Marker
  | '-' => some .line
  | '>' => some .rightHead
  | '<' => some .leftHead
  | _ => none

end Marker

/-- Whether a text holds a mark, so that it can only be meant as a chain. -/
def hasMarker (text : String) : Bool := text.toList.any fun c => (Marker.ofChar? c).isSome

end SchemaGraph.Chain
