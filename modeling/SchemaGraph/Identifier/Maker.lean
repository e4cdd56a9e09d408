import SchemaGraph.Identifier.Basic
import SchemaGraph.Text.Quoted

/-! # Minting identifiers

A maker hands out the identifiers of one area in sequence. When the area is used up it
draws the next area from its allocator. A drawn text that names no area fails the call and
is gone, while area and sequence stay, so that the following call draws again.
-/

namespace SchemaGraph.Identifier

/-- An endless supply of area texts, and how many were drawn from it. -/
structure Allocator where
  supply : Nat → String
  drawn : Nat

namespace Allocator

/-- Areas counted up from a number; only the last twelve digits are written. -/
def countingFrom (first : Nat) : Allocator :=
  ⟨fun place => String.ofList (digits partLength (first + place)), 0⟩

/-- The given texts in turn, and empty texts behind them. -/
def ofTexts (texts : List String) : Allocator := ⟨fun place => texts.getD place "", 0⟩

def draw (a : Allocator) : String × Allocator :=
  (a.supply a.drawn, { a with drawn := a.drawn + 1 })

end Allocator

/-- Why no identifier was minted. -/
inductive MintError where
  /-- The allocator handed out a text that names no area. -/
  | invalidArea (text : String)
  deriving Repr, DecidableEq

def MintError.message : MintError → String
  | .invalidArea text => "Invalid id area " ++ Text.quoted text ++ ": expected 12 base-32 digits"

/-- The current area, the next sequence value in it, and the next placeholder. -/
structure Maker where
  allocator : Allocator
  area : String
  sequence : Nat
  placeholders : Nat

namespace Maker

/-- A maker in the first area that the allocator hands out. -/
def ofAllocator (allocator : Allocator) : Except MintError Maker :=
  let (text, allocator) := allocator.draw
  if isArea text then .ok ⟨allocator, text, 0, 0⟩ else .error (.invalidArea text)

/-- A maker over all areas, from the first one on. -/
def fresh : Maker :=
  let (text, allocator) := (Allocator.countingFrom 0).draw
  ⟨allocator, text, 0, 0⟩

/-- Continue the current area from the given sequence value. -/
def startingAt (m : Maker) (sequence : Nat) : Maker := { m with sequence }

/-- The identifier of the current area and sequence. -/
def current (m : Maker) : String :=
  String.ofList (withCheckDigit (m.area.toList ++ digits partLength m.sequence))

/-- Go to a new area when the current one is used up. -/
def rollOver (m : Maker) : Except MintError Unit × Maker :=
  if m.sequence < sequenceLimit then (.ok (), m)
  else
    let (text, allocator) := m.allocator.draw
    if isArea text then (.ok (), { m with allocator, area := text, sequence := 0 })
    else (.error (.invalidArea text), { m with allocator })

/-- Mint the next identifier. -/
def next (m : Maker) : Except MintError String × Maker :=
  match m.rollOver with
  | (.ok (), m) => (.ok m.current, { m with sequence := m.sequence + 1 })
  | (.error e, m) => (.error e, m)

/-- Mint the next placeholder. -/
def nextPlaceholder (m : Maker) : String × Maker :=
  (placeholder m.placeholders, { m with placeholders := m.placeholders + 1 })

end Maker

end SchemaGraph.Identifier
