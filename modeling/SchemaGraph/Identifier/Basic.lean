import SchemaGraph.Identifier.Digit

/-! # Identifiers

An identifier has 25 base-32 digits: a check digit, twelve digits of area and twelve of
sequence. The check digit is the sum of the others modulo 32, so one wrong digit is always
found. A placeholder, which stands for an entity that has no identifier yet, has a
character that is no digit and is never taken for an identifier.
-/

namespace SchemaGraph.Identifier

/-- Digits of an area and of a sequence. -/
def partLength : Nat := 12

/-- Sequence values in one area: as many as twelve digits can tell apart. -/
def sequenceLimit : Nat := 0x1000000000000000

/-- The sum of digits, if all characters are digits. -/
def digitSum? : List Char → Option Nat
  | [] => some 0
  | c :: rest =>
      match digitValue? c, digitSum? rest with
      | some n, some sum => some (n + sum)
      | _, _ => none

/-- The check digit of an area and a sequence written one behind the other. -/
def checkDigit? (payload : List Char) : Option Char :=
  if payload.length = 2 * partLength then
    (digitSum? payload).map fun sum => digitChar (sum % 32)
  else none

/-- Put the check digit in front; only digits get another one than `0`. -/
def withCheckDigit (payload : List Char) : List Char :=
  (checkDigit? payload).getD '0' :: payload

/-- Whether a text has the length, the digits and the check digit of an identifier. -/
def isEffective (id : String) : Bool :=
  match id.toList with
  | [] => false
  | check :: payload => checkDigit? payload = some check

/-- What placeholders start with. -/
def placeholderStart : List Char := ['t', '_']

def placeholder (n : Nat) : String := String.ofList (placeholderStart ++ Nat.toDigits 10 n)

/-- Whether a text is a placeholder: the start, and at least one decimal digit behind it. -/
def isPlaceholder (id : String) : Bool :=
  match id.toList with
  | 't' :: '_' :: number => !number.isEmpty && number.all Char.isDigit
  | _ => false

/-- Whether a text names an area: exactly twelve digits. -/
def isArea (text : String) : Bool :=
  text.toList.length = partLength && text.toList.all isDigit

end SchemaGraph.Identifier
