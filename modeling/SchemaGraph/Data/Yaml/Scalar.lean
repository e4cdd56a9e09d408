import SchemaGraph.Data.Yaml.Cell
import SchemaGraph.Decimal.Digits

/-! # Scalars in YAML text

Within a scalar a line end with the blanks around it counts as a space, and each further one
as a line feed. Both kinds of scalars, with and without quotes, are read cell by cell with the
gap that was passed since the last character.
-/

namespace SchemaGraph.Data.Yaml

/-- The blanks and line ends between two characters of a scalar. -/
structure Gap where
  /-- The blanks in front of any line end. -/
  blanks : List Char := []
  /-- Whether a line ended. -/
  crossed : Bool := false
  /-- The first line end, unless it was escaped. -/
  first : Option Char := none
  /-- The line ends behind the first. -/
  further : List Char := []
  deriving Repr, DecidableEq

namespace Gap

def isEmpty (gap : Gap) : Bool := gap.blanks.isEmpty && !gap.crossed

/-- The gap with one more blank or line end. -/
def add (gap : Gap) (cell : Cell) : Gap :=
  if cell.isBreak then
    if gap.crossed then { gap with further := gap.further ++ [cell.char] }
    else { gap with crossed := true, first := some cell.char }
  else if gap.crossed then gap
  else { gap with blanks := gap.blanks ++ [cell.char] }

/-- The gap behind an escaped line end. -/
def escaped : Gap := { crossed := true }

/-- What the gap counts as. Blanks around line ends are dropped; a single line feed is a
    space, and one in front of further line ends nothing. -/
def text (gap : Gap) : List Char :=
  if gap.crossed then
    match gap.first with
    | none => gap.further
    | some c => if c = '\n' then if gap.further.isEmpty then [' '] else gap.further
                else c :: gap.further
  else gap.blanks

end Gap

/-- The characters that end a scalar without quotes within brackets. -/
def isFlowMark (c : Char) : Bool := [',', '[', ']', '\x7b', '\x7d'].contains c

/-- What was read of a scalar without quotes, and the cells behind it. -/
structure PlainRead where
  chars : List Char
  /-- Whether a line ended between the scalar and the rest. -/
  crossed : Bool
  rest : List Cell
  deriving Repr, DecidableEq

/-- Whether a scalar without quotes cannot go on behind a gap. Outside of brackets its further
    lines start at column `least` or behind it. -/
def stopsPlain (flow : Bool) (least : Nat) (cells : List Cell) : Bool :=
  Cell.startsDocumentMark cells ||
    cells.head?.any fun cell => cell.char = '#' || (!flow && cell.column < least)

/-- Whether a scalar without quotes ends in front of the character and what follows it. -/
def endsPlain (flow : Bool) (c : Char) (rest : List Cell) : Bool :=
  (c = ':' && Cell.endsMark rest) || (flow && isFlowMark c)

/-- Within brackets a colon must not stand directly in front of a mark. -/
def isColonMisplaced (flow : Bool) (c : Char) (rest : List Cell) : Bool :=
  flow && c = ':' && rest.head?.any fun cell => isFlowMark cell.char || cell.char = '?'

/-- A scalar without quotes, or what is left of it behind a gap. A tab must not stand before
    column `least` of a further line. -/
def plain? (flow : Bool) (least : Nat) (gap : Gap) : List Cell → Option PlainRead
  | [] => some ⟨[], gap.crossed, []⟩
  | cell :: rest =>
      if cell.isBlank || cell.isBreak then
        if gap.crossed && cell.char = '\t' && cell.column < least then none
        else plain? flow least (gap.add cell) rest
      else if !gap.isEmpty && stopsPlain flow least (cell :: rest) then
        some ⟨[], gap.crossed, cell :: rest⟩
      else if isColonMisplaced flow cell.char rest then none
      else if endsPlain flow cell.char rest then some ⟨[], gap.crossed, cell :: rest⟩
      else do
        let read ← plain? flow least {} rest
        return { read with chars := gap.text ++ cell.char :: read.chars }

/-- Whether a scalar without quotes may start with the character. -/
def startsPlain (flow : Bool) (c : Char) (rest : List Cell) : Bool :=
  if c = '-' then !Cell.endsMark rest
  else if c = '?' || c = ':' then !flow && !Cell.endsMark rest
  else !(isBlank c || isBreak c || isFlowMark c ||
    ['#', '&', '*', '!', '|', '>', '\'', '"', '%', '@', '\x60'].contains c)

/-- The characters named by one letter behind a backslash. -/
def escaped? : Char → Option Char
  | '0' => some '\x00'
  | 'a' => some '\x07'
  | 'b' => some '\x08'
  | 't' => some '\t'
  | '\t' => some '\t'
  | 'n' => some '\n'
  | 'v' => some '\x0b'
  | 'f' => some '\x0c'
  | 'r' => some '\r'
  | 'e' => some '\x1b'
  | ' ' => some ' '
  | '"' => some '"'
  | '/' => some '/'
  | '\\' => some '\\'
  | 'N' => some '\x85'
  | '_' => some '\xa0'
  | 'L' => some '\u2028'
  | 'P' => some '\u2029'
  | _ => none

/-- How many hexadecimal digits follow the letter of a numbered escape. -/
def escapeLength? : Char → Option Nat
  | 'x' => some 2
  | 'u' => some 4
  | 'U' => some 8
  | _ => none

/-- The character with the given number, if there is one. -/
def charOfNumber? (n : Nat) : Option Char :=
  if n.isValidChar then some (Char.ofNat n) else none

/-- The character of an escape behind its backslash, and how many cells it takes there. -/
def unescape? : List Cell → Option (Char × Nat)
  | [] => none
  | cell :: rest =>
      match escapeLength? cell.char with
      | none => (escaped? cell.char).map fun c => (c, 1)
      | some count =>
          let digits := (rest.take count).map Cell.char
          if digits.length < count then none
          else ((Decimal.natural? 16 digits).bind charOfNumber?).map fun c => (c, count + 1)

/-- A scalar behind its opening quote, or what is left of it behind a gap, and the cells behind
    its closing quote; the first `taken` cells have been read already. A single quote within
    single quotes is written twice, and double quotes know escapes. -/
def quoted? (mark : Char) (taken : Nat) (gap : Gap) :
    List Cell → Option (List Char × List Cell)
  | [] => none
  | cell :: rest =>
      match taken with
      | left + 1 => quoted? mark left gap rest
      | 0 =>
          if cell.isBlank || cell.isBreak then quoted? mark 0 (gap.add cell) rest
          else if Cell.startsDocumentMark (cell :: rest) then none
          else if cell.char = mark then
            if mark = '\'' && rest.head?.any (fun next => next.char = '\'') then
              (quoted? mark 1 {} rest).map fun (chars, rest) => (gap.text ++ '\'' :: chars, rest)
            else some (gap.text, rest)
          else if cell.char = '\\' && mark = '"' then
            if rest.head?.any Cell.isBreak then
              (quoted? mark 1 .escaped rest).map fun (chars, rest) => (gap.text ++ chars, rest)
            else do
              let (c, count) ← unescape? rest
              let (chars, rest) ← quoted? mark count {} rest
              return (gap.text ++ c :: chars, rest)
          else
            (quoted? mark 0 {} rest).map fun (chars, rest) =>
              (gap.text ++ cell.char :: chars, rest)

end SchemaGraph.Data.Yaml
