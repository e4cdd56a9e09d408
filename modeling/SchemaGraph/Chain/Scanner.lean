import SchemaGraph.Chain.Term

/-! # Scanning chains

The terms and marks of a text, read character by character. The reader stands in one of a
few stages, and from each of them some text leads to the end of a chain; so the first
character that it cannot pass is the first that no chain has in this place.
-/

namespace SchemaGraph.Chain

/-- How far the term at hand is read; characters are kept last first. -/
inductive Stage where
  /-- Nothing is read of it. -/
  | opening
  /-- A name, which a colon would make a label. -/
  | name (chars : List Char)
  /-- A label and its colon. -/
  | labelled (label : String)
  | labelledName (label : String) (chars : List Char)
  /-- A wildcard, behind which only a mark can stand. -/
  | closed (term : Term)
  deriving Repr, DecidableEq

namespace Stage

/-- The text of characters kept last first. -/
def textOf (chars : List Char) : String := String.ofList chars.reverse

/-- The term, if it can end here. -/
def term? : Stage → Option Term
  | .opening => none
  | .name chars => some (.written none (textOf chars))
  | .labelled _ => none
  | .labelledName label chars => some (.written (some label) (textOf chars))
  | .closed term => some term

/-- Read a colon. -/
def colon? : Stage → Option Stage
  | .name chars => some (.labelled (textOf chars))
  | _ => none

/-- Read a star. -/
def star? : Stage → Option Stage
  | .opening => some (.closed (.written none wildcard))
  | .labelled label => some (.closed (.written (some label) wildcard))
  | _ => none

/-- Read a character of a name. -/
def letter? (c : Char) : Stage → Option Stage
  | .opening => some (.name [c])
  | .name chars => some (.name (c :: chars))
  | .labelled label => some (.labelledName label [c])
  | .labelledName label chars => some (.labelledName label (c :: chars))
  | .closed _ => none

end Stage

/-- The terms and marks behind the reader, last first, and the stage of the term at hand. -/
structure Scan where
  terms : List Term := []
  markers : List Marker := []
  stage : Stage := .opening
  deriving Repr, DecidableEq

/-- The terms of a chain and the marks between them. -/
structure Tokens where
  terms : List Term
  markers : List Marker
  deriving Repr, DecidableEq

namespace Scan

/-- Read one character. -/
def step? (s : Scan) (c : Char) : Option Scan :=
  match Marker.ofChar? c with
  | some marker =>
      s.stage.term?.map fun term => ⟨term :: s.terms, marker :: s.markers, .opening⟩
  | none =>
      let stage :=
        if c = ':' then s.stage.colon? else if c = '*' then s.stage.star? else s.stage.letter? c
      stage.map fun stage => { s with stage }

/-- What is read, if the text can end here. -/
def finish? (s : Scan) : Option Tokens :=
  s.stage.term?.map fun term => ⟨(term :: s.terms).reverse, s.markers.reverse⟩

/-- Read to the end of a text, or tell the count of characters that could be read. -/
def run (s : Scan) (passed : Nat) : List Char → Except Nat Tokens
  | [] =>
      match s.finish? with
      | some tokens => .ok tokens
      | none => .error passed
  | c :: rest =>
      match s.step? c with
      | some s => s.run (passed + 1) rest
      | none => .error passed

end Scan

/-- The tokens of a text, or the count of its characters that some chain starts with. -/
def scan (text : List Char) : Except Nat Tokens := Scan.run {} 0 text

end SchemaGraph.Chain
