import SchemaGraph.Data.Yaml.Scalar

/-! # Tokens of YAML text

A text is a row of tokens, in which indentation has become explicit: where a list or a map
begins by its column, and where it ends. What turns out to be a key only by the colon behind
it is marked as one in front, at the place that was kept for it.
-/

namespace SchemaGraph.Data.Yaml

/-- A token of a text. -/
inductive Token where
  /-- The mark in front of a document. -/
  | opening
  /-- The mark behind a document. -/
  | closing
  /-- The start of a list that is laid out by indentation. -/
  | indentedList
  /-- The start of a map that is laid out by indentation. -/
  | indentedMap
  /-- The end of the innermost list or map that is laid out by indentation. -/
  | dedent
  | bracket
  | closingBracket
  | brace
  | closingBrace
  | comma
  /-- An item of an indented list follows. -/
  | item
  /-- A key follows. -/
  | key
  /-- The value of a key follows. -/
  | value
  | quoted (text : String)
  | plain (text : String)
  deriving Repr, DecidableEq

/-- Where a key starts if a colon follows on the same line and not too far behind. -/
structure Candidate where
  /-- How many tokens stand in front of it. -/
  place : Nat
  /-- The first cell of it. -/
  start : Cell
  /-- Whether nothing but a key can stand there. -/
  required : Bool
  deriving Repr, DecidableEq

/-- Whether a key that started there cannot reach up to a place. -/
def Candidate.isStale (c : Candidate) (line offset : Nat) : Bool :=
  c.start.line < line || c.start.offset + 1024 < offset

/-- What has been scanned of a text. -/
structure Scan where
  tokens : Array Token := #[]
  /-- The columns of the lists and maps laid out by indentation that are open, innermost
      first. -/
  columns : List Nat := []
  /-- The candidate within the innermost brackets, or outside of all of them. -/
  candidate : Option Candidate := none
  /-- The candidates outside of each pair of open brackets, innermost first. -/
  outer : List (Option Candidate) := []
  /-- Whether a key may start here. -/
  keyAllowed : Bool := true
  deriving Repr, DecidableEq

namespace Scan

/-- Whether brackets are open. -/
def inFlow (s : Scan) : Bool := !s.outer.isEmpty

/-- The column behind that of the innermost list or map laid out by indentation. -/
def least (s : Scan) : Nat :=
  match s.columns with
  | [] => 0
  | column :: _ => column + 1

def push (s : Scan) (t : Token) : Scan := { s with tokens := s.tokens.push t }

def allowKey (s : Scan) (keyAllowed : Bool) : Scan := { s with keyAllowed }

/-- The scan without a candidate that can no longer be a key, unless it has to be one. -/
def dropCandidate? (s : Scan) : Option Scan :=
  if s.candidate.any Candidate.required then none else some { s with candidate := none }

/-- The scan without the candidates that cannot reach up to a place, unless one of them has to
    be a key. -/
def dropStale? (s : Scan) (line offset : Nat) : Option Scan :=
  let isStale : Candidate → Bool := fun c => c.isStale line offset
  if (s.candidate :: s.outer).any fun kept => kept.any fun c => c.required && isStale c then none
  else
    let keep : Option Candidate → Option Candidate := Option.filter fun c => !isStale c
    some { s with candidate := keep s.candidate, outer := s.outer.map keep }

/-- Keep a cell as the candidate, if a key may start there. -/
def saveCandidate? (s : Scan) (cell : Cell) : Option Scan :=
  if s.keyAllowed then do
    let required := !s.inFlow && s.columns.head? = some cell.column
    return { ← s.dropCandidate? with candidate := some ⟨s.tokens.size, cell, required⟩ }
  else some s

/-- Open a list or map at a column, with its start at a place among the tokens, if that column
    is behind all open ones. Nothing is laid out by indentation within brackets. -/
def openColumn (s : Scan) (column place : Nat) (t : Token) : Scan :=
  if s.inFlow || column < s.least then s
  else { s with columns := column :: s.columns, tokens := s.tokens.insertIdxIfInBounds place t }

/-- Close the lists and maps that do not reach down to column `least`. -/
def closeColumns (s : Scan) (least : Nat) : Scan :=
  if s.inFlow then s
  else
    let closed := s.columns.takeWhile fun column => least ≤ column
    { s with
        columns := s.columns.drop closed.length,
        tokens := s.tokens ++ Array.replicate closed.length Token.dedent }

/-- Pass over blanks, line ends and comments. Outside of brackets a tab does not count as a blank
    where a key may start, and a key may start behind a line end. -/
def skip (s : Scan) (inComment : Bool) : List Cell → Scan × List Cell
  | [] => (s, [])
  | cell :: rest =>
      if cell.isBreak then (s.allowKey (s.keyAllowed || !s.inFlow)).skip false rest
      else if inComment || cell.char = '#' then s.skip true rest
      else if cell.char = ' ' || (cell.char = '\t' && (s.inFlow || !s.keyAllowed)) then
        s.skip false rest
      else (s, cell :: rest)

/-- The mark of a document's start or end, which closes everything. -/
def document? (s : Scan) (t : Token) : Option Scan := do
  let s ← (s.closeColumns 0).dropCandidate?
  return (s.allowKey false).push t

/-- An opening bracket or brace. -/
def enter? (s : Scan) (cell : Cell) (t : Token) : Option Scan := do
  let s ← s.saveCandidate? cell
  return ({ s with candidate := none, outer := s.candidate :: s.outer }.allowKey true).push t

/-- A closing bracket or brace. -/
def leave? (s : Scan) (t : Token) : Option Scan := do
  let s ← s.dropCandidate?
  let s := match s.outer with
    | [] => s
    | candidate :: outer => { s with candidate, outer }
  return (s.allowKey false).push t

/-- A mark that starts a part of an indented list or map, and opens that if needed. -/
def part? (s : Scan) (cell : Cell) (whole part : Token) (keyAllowed : Bool) : Option Scan := do
  guard (s.inFlow || s.keyAllowed)
  let s ← (s.openColumn cell.column s.tokens.size whole).dropCandidate?
  return (s.allowKey keyAllowed).push part

/-- A colon. It makes a key of the candidate, or else stands alone. -/
def colon? (s : Scan) (cell : Cell) : Option Scan :=
  match s.candidate with
  | some c =>
      let s := { s with
        candidate := none, tokens := s.tokens.insertIdxIfInBounds c.place .key }
      some (((s.openColumn c.start.column c.place .indentedMap).allowKey false).push .value)
  | none => do
      guard (s.inFlow || s.keyAllowed)
      let s := s.openColumn cell.column s.tokens.size .indentedMap
      return (s.allowKey !s.inFlow).push .value

/-- A scalar in quotes and the cells behind it. -/
def quotedScalar? (s : Scan) (cell : Cell) (rest : List Cell) : Option (Scan × List Cell) := do
  let s ← s.saveCandidate? cell
  let (chars, rest) ← quoted? cell.char 0 {} rest
  return ((s.allowKey false).push (.quoted (String.ofList chars)), rest)

/-- A scalar without quotes and the cells behind it. -/
def plainScalar? (s : Scan) (cell : Cell) (rest : List Cell) : Option (Scan × List Cell) := do
  guard (startsPlain s.inFlow cell.char rest)
  let s ← s.saveCandidate? cell
  let read ← plain? s.inFlow s.least {} (cell :: rest)
  return ((s.allowKey read.crossed).push (.plain (String.ofList read.chars)), read.rest)

/-- The token that starts with a cell, and the cells behind it. -/
def token? (s : Scan) (cell : Cell) (rest : List Cell) : Option (Scan × List Cell) :=
  let isMark := Cell.endsMark rest
  if Cell.startsRule '-' (cell :: rest) then s.document? .opening |>.map (·, rest.drop 2)
  else if Cell.startsRule '.' (cell :: rest) then s.document? .closing |>.map (·, rest.drop 2)
  else match cell.char with
    | '[' => s.enter? cell .bracket |>.map (·, rest)
    | '\x7b' => s.enter? cell .brace |>.map (·, rest)
    | ']' => s.leave? .closingBracket |>.map (·, rest)
    | '\x7d' => s.leave? .closingBrace |>.map (·, rest)
    | ',' => s.dropCandidate?.map fun s => ((s.allowKey true).push .comma, rest)
    | '\'' => s.quotedScalar? cell rest
    | '"' => s.quotedScalar? cell rest
    | c =>
        if c = '-' && isMark then
          s.part? cell .indentedList .item true |>.map (·, rest)
        else if c = '?' && (s.inFlow || isMark) then
          s.part? cell .indentedMap .key (!s.inFlow) |>.map (·, rest)
        else if c = ':' && (s.inFlow || isMark) then s.colon? cell |>.map (·, rest)
        else s.plainScalar? cell rest

/-- The tokens of the cells that are left, of which there are fewer than `fuel`. -/
def finish? : Nat → Scan → List Cell → Option (List Token)
  | 0, _, _ => none
  | fuel + 1, s, cells => do
      let (s, cells) := s.skip false cells
      match cells with
      | [] => return ((← s.dropCandidate?).closeColumns 0).tokens.toList
      | cell :: rest =>
          let s ← s.dropStale? cell.line cell.offset
          let (s, rest) ← (s.closeColumns (cell.column + 1)).token? cell rest
          finish? fuel s rest

end Scan

/-- The tokens of a text. -/
def Token.ofText? (text : String) : Option (List Token) := do
  guard (text.toList.all isPrintable)
  let cells := Cell.ofText text
  Scan.finish? (cells.length + 1) {} cells

end SchemaGraph.Data.Yaml
