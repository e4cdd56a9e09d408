import SchemaGraph.Data.Json.Numeral
import SchemaGraph.Data.Json.Quotation

/-! # Reading JSON text

The tree of a JSON text. Scalars that denote nothing and any depth of nesting are let
through, since both matter only where a part of the tree is given a type.
-/

namespace SchemaGraph.Data.Json

def isSpace (c : Char) : Bool := c = ' ' || c = '\t' || c = '\n' || c = '\r'

def skipSpace (text : List Char) : List Char := text.dropWhile isSpace

/-- The tree of a string behind its opening quote, and the text behind it. -/
def string? (text : List Char) : Option (Tree × List Char) := do
  let (pieces, rest) ← pieces? text
  match denoted? pieces with
  | some chars => return (.text (String.ofList chars), rest)
  | none => return (.unreadable, rest)

mutual
/-- One value, and the text behind it; the count bounds the nesting and the length. -/
def value? : Nat → List Char → Option (Tree × List Char)
  | 0, _ => none
  | fuel + 1, text =>
      match skipSpace text with
      | 'n' :: 'u' :: 'l' :: 'l' :: rest => some (.null, rest)
      | 't' :: 'r' :: 'u' :: 'e' :: rest => some (.bool true, rest)
      | 'f' :: 'a' :: 'l' :: 's' :: 'e' :: rest => some (.bool false, rest)
      | '"' :: rest => string? rest
      | '[' :: rest =>
          match skipSpace rest with
          | ']' :: rest => some (.list [], rest)
          | rest => do
              let (items, rest) ← items? fuel rest
              return (.list items, rest)
      | '\x7b' :: rest =>
          match skipSpace rest with
          | '\x7d' :: rest => some (.map [], rest)
          | rest => do
              let (entries, rest) ← entries? fuel rest
              return (.map entries, rest)
      | text => number? text

/-- The items of a list up to its closing bracket. -/
def items? : Nat → List Char → Option (List Tree × List Char)
  | 0, _ => none
  | fuel + 1, text => do
      let (item, rest) ← value? fuel text
      match skipSpace rest with
      | ',' :: rest =>
          let (items, rest) ← items? fuel rest
          return (item :: items, rest)
      | ']' :: rest => return ([item], rest)
      | _ => none

/-- The entries of a map up to its closing brace. -/
def entries? : Nat → List Char → Option (List (Tree × Tree) × List Char)
  | 0, _ => none
  | fuel + 1, text => do
      match skipSpace text with
      | '"' :: rest =>
          let (key, rest) ← string? rest
          match skipSpace rest with
          | ':' :: rest =>
              let (value, rest) ← value? fuel rest
              match skipSpace rest with
              | ',' :: rest =>
                  let (entries, rest) ← entries? fuel rest
                  return ((key, value) :: entries, rest)
              | '\x7d' :: rest => return ([(key, value)], rest)
              | _ => none
          | _ => none
      | _ => none
end

/-- The tree of a whole text. -/
def read? (text : String) : Option Tree := do
  let chars := text.toList
  let (t, rest) ← value? (2 * chars.length + 2) chars
  if (skipSpace rest).isEmpty then return t else none

end SchemaGraph.Data.Json
