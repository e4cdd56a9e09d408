import SchemaGraph.Text.Quoted
import SchemaGraph.Decimal.Digits

/-! # Strings in JSON text

A string is read in two steps: its characters and escapes, and then what these denote. An
escape gives a unit of UTF-16, and a pair of surrogate units gives one character; half a
pair is well written but denotes nothing.
-/

namespace SchemaGraph.Data.Json

/-- One written character, or one escaped unit. -/
inductive Piece where
  | char (c : Char)
  | unit (n : Nat)
  deriving Repr, DecidableEq

/-- The character of an escape that is no unit. -/
def escaped? : Char → Option Char
  | '"' => some '"'
  | '\\' => some '\\'
  | '/' => some '/'
  | 'b' => some '\x08'
  | 'f' => some '\x0c'
  | 'n' => some '\n'
  | 'r' => some '\r'
  | 't' => some '\t'
  | _ => none

/-- The pieces up to the closing quote, and the text behind it. -/
def pieces? : List Char → Option (List Piece × List Char)
  | [] => none
  | '"' :: rest => some ([], rest)
  | '\\' :: 'u' :: a :: b :: c :: d :: rest => do
      let n ← Decimal.natural? 16 [a, b, c, d]
      let (pieces, rest) ← pieces? rest
      return (.unit n :: pieces, rest)
  | '\\' :: c :: rest => do
      let c ← escaped? c
      let (pieces, rest) ← pieces? rest
      return (.char c :: pieces, rest)
  | c :: rest =>
      if c.toNat < 0x20 then none
      else do
        let (pieces, rest) ← pieces? rest
        return (.char c :: pieces, rest)

def isHighSurrogate (n : Nat) : Bool := 0xd800 ≤ n && n < 0xdc00

def isLowSurrogate (n : Nat) : Bool := 0xdc00 ≤ n && n < 0xe000

/-- The characters that the pieces denote. -/
def denoted? : List Piece → Option (List Char)
  | [] => some []
  | .char c :: rest => (denoted? rest).map (c :: ·)
  | .unit high :: .unit low :: rest =>
      if isHighSurrogate high then
        if isLowSurrogate low then
          (denoted? rest).map
            (Char.ofNat (0x10000 + 0x400 * (high - 0xd800) + (low - 0xdc00)) :: ·)
        else none
      else if isLowSurrogate high then none
      else (denoted? (.unit low :: rest)).map (Char.ofNat high :: ·)
  | .unit n :: rest =>
      if isHighSurrogate n || isLowSurrogate n then none
      else (denoted? rest).map (Char.ofNat n :: ·)

/-- One character of a written string: only the quote, the backslash and controls are
    escaped. -/
def writtenChar (c : Char) : String :=
  match c with
  | '"' => "\\\""
  | '\\' => "\\\\"
  | '\x08' => "\\b"
  | '\x0c' => "\\f"
  | '\n' => "\\n"
  | '\r' => "\\r"
  | '\t' => "\\t"
  | c =>
      if c.toNat < 0x10 then "\\u000" ++ Text.hexadecimal c.toNat
      else if c.toNat < 0x20 then "\\u00" ++ Text.hexadecimal c.toNat
      else c.toString

/-- A text as a JSON string. -/
def quotation (text : String) : String :=
  "\"" ++ String.join (text.toList.map writtenChar) ++ "\""

end SchemaGraph.Data.Json
