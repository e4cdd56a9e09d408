import SchemaGraph.Value.Tree
import SchemaGraph.Data.Json.Reader
import SchemaGraph.Data.Json.Printer

/-! # Texts of property values

A value has two texts: one to show, and one that goes into fingerprints. They differ for
texts, which show between quotes but count as they are, and for arrays and maps, which
count as their JSON text.
-/

namespace SchemaGraph.Value

/-- Shown reals have all digits in their places, and no point where none is needed. -/
def shownReals : Decimal.Layout where
  tie := .up
  positional := none
  pointed := false
  nan := "NaN"
  infinity := "inf"
  negativeInfinity := "-inf"

mutual
/-- The text to show. -/
def display : Value → String
  | .null => "null"
  | .boolean value => if value then "true" else "false"
  | .integer value => toString value.toInt
  | .real value => shownReals.write value
  | .text value => "\"" ++ value ++ "\""
  | .array items => "[" ++ String.intercalate ", " (displayItems items) ++ "]"
  | .map entries => "\x7b" ++ String.intercalate ", " (displayEntries entries) ++ "\x7d"

def displayItems : List Value → List String
  | [] => []
  | item :: rest => item.display :: displayItems rest

def displayEntries : List (String × Value) → List String
  | [] => []
  | (key, value) :: rest => (key ++ ": " ++ value.display) :: displayEntries rest
end

/-- The compact JSON text. -/
def json (value : Value) : String := Data.Json.print value.toTree

/-- The text that goes into fingerprints and display texts. -/
def fingerprintText : Value → String
  | .text value => value
  | .array items => (Value.array items).json
  | .map entries => (Value.map entries).json
  | value => value.display

/-- The value of a JSON text. -/
def ofJson? (text : String) : Option Value := do
  let t ← Data.Json.read? text
  if t.fitsBelow .json 0 then ofTree? t else none

end SchemaGraph.Value
