/-! # Places in a text

A reader reports a place as a line and a column, both counted from one.
-/

namespace SchemaGraph.Text

/-- A line of a text and a column in it. -/
structure Position where
  line : Nat
  column : Nat
  deriving Repr, DecidableEq

namespace Position

/-- Where every text starts. -/
def start : Position := ⟨1, 1⟩

/-- The place behind a character: a line feed ends the line, any other character fills
    one column. -/
def after (p : Position) (c : Char) : Position :=
  if c = '\n' then ⟨p.line + 1, 1⟩ else ⟨p.line, p.column + 1⟩

/-- The place behind the first `offset` characters. -/
def ofOffset (text : List Char) (offset : Nat) : Position :=
  (text.take offset).foldl after start

end Position

end SchemaGraph.Text
