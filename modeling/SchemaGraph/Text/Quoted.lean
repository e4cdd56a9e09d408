import SchemaGraph.Text.Unmarked

/-! # Quoted text

How messages show a text that may hold anything: between double quotes, on one line, with
every character told apart from every other.
-/

namespace SchemaGraph.Text

/-- A number in lower-case hexadecimal digits. -/
def hexadecimal (n : Nat) : String := String.ofList (Nat.toDigits 16 n)

/-- One character inside quotes. -/
def quotedChar (c : Char) : String :=
  match c with
  | '\x00' => "\\0"
  | '\t' => "\\t"
  | '\r' => "\\r"
  | '\n' => "\\n"
  | '"' => "\\\""
  | '\\' => "\\\\"
  | c => if isUnmarked c then "\\u\x7b" ++ hexadecimal c.toNat ++ "\x7d" else c.toString

/-- The text between double quotes. -/
def quoted (text : String) : String :=
  "\"" ++ String.join (text.toList.map quotedChar) ++ "\""

end SchemaGraph.Text
