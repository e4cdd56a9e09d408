/-! # Cells of YAML text

A text is read as cells, each a character with its place, because indentation carries the
structure and a key has to stay on one line.
-/

namespace SchemaGraph.Data.Yaml

/-- A character and its place: line and column, and how many bytes come before it. -/
structure Cell where
  char : Char
  line : Nat
  column : Nat
  offset : Nat
  deriving Repr, DecidableEq

/-- The characters a text may hold at all, outside of escapes. -/
def isPrintable (c : Char) : Bool :=
  if c.val < 0x80 then c = '\t' || c = '\n' || c = '\r' || (0x20 ≤ c.val && c.val < 0x7f)
  else c = '\x85' || (0xa0 ≤ c.val && c.val ≠ 0xfffe && c.val ≠ 0xffff)

def isBlank (c : Char) : Bool := c = ' ' || c = '\t'

/-- The characters that end a line in cells, where the usual line ends are all line feeds. -/
def isBreak (c : Char) : Bool := c = '\n' || c = '\u2028' || c = '\u2029'

namespace Cell

def isBlank (cell : Cell) : Bool := Yaml.isBlank cell.char

def isBreak (cell : Cell) : Bool := Yaml.isBreak cell.char

/-- The cells of characters that follow a place; every usual line end becomes one line
    feed. -/
def ofChars (line column offset : Nat) : List Char → List Cell
  | [] => []
  | '\r' :: '\n' :: rest => ⟨'\n', line, column, offset⟩ :: ofChars (line + 1) 0 (offset + 2) rest
  | c :: rest =>
      let next := offset + c.utf8Size
      if c = '\r' ∨ c = '\x85' then ⟨'\n', line, column, offset⟩ :: ofChars (line + 1) 0 next rest
      else if Yaml.isBreak c then ⟨c, line, column, offset⟩ :: ofChars (line + 1) 0 next rest
      else ⟨c, line, column, offset⟩ :: ofChars line (column + 1) next rest

/-- The cells of a text. A byte order mark in front is passed over, but takes a column. -/
def ofText (text : String) : List Cell :=
  match ofChars 0 0 0 text.toList with
  | first :: rest => if first.char = '\ufeff' then rest else first :: rest
  | [] => []

/-- Whether a mark may end in front of these cells: at a blank, a line end or the end of the
    text. -/
def endsMark : List Cell → Bool
  | [] => true
  | cell :: _ => cell.isBlank || cell.isBreak

/-- Whether three times the character stands here at the start of a line, and nothing directly
    behind it. -/
def startsRule (c : Char) (cells : List Cell) : Bool :=
  (cells.head?.any fun cell => cell.column = 0) &&
    (cells.take 3).map Cell.char = [c, c, c] && endsMark (cells.drop 3)

/-- Whether the mark of a document's start or end stands here. -/
def startsDocumentMark (cells : List Cell) : Bool := startsRule '-' cells || startsRule '.' cells

end Cell

end SchemaGraph.Data.Yaml
