import SchemaGraph.Data.Tree
import SchemaGraph.Decimal.Digits

/-! # Scalars without quotes

A scalar without quotes gets the type that its text looks like: nothing, a truth value,
an integer, a real, or else a text.
-/

namespace SchemaGraph.Data.Plain

def isNull (text : String) : Bool := ["", "~", "null", "Null", "NULL"].contains text

def bool? (text : String) : Option Bool :=
  if ["true", "True", "TRUE"].contains text then some true
  else if ["false", "False", "FALSE"].contains text then some false
  else none

/-- A number after its sign: with a base mark in front, or in decimal digits without
    needless zeros. -/
def magnitude? : List Char → Option Nat
  | '0' :: 'x' :: rest => Decimal.natural? 16 rest
  | '0' :: 'o' :: rest => Decimal.natural? 8 rest
  | '0' :: 'b' :: rest => Decimal.natural? 2 rest
  | '0' :: _ :: _ => none
  | text => Decimal.natural? 10 text

def integer? : List Char → Option Int
  | '-' :: rest => (magnitude? rest).map fun n => -(n : Int)
  | '+' :: rest => (magnitude? rest).map Int.ofNat
  | text => (magnitude? text).map Int.ofNat

/-- The number of a place: an integer without a minus that an unsigned 64-bit word holds. -/
def place? (text : String) : Option Nat :=
  match text.toList with
  | '-' :: _ => none
  | chars => (integer? chars).bind fun n =>
      if n.toNat < UInt64.size then some n.toNat else none

/-- The double nearest to `digits · 10 ^ exponent`, unless it is beyond all doubles. Numbers
    that are too great or too small by their length alone are not worked out. -/
def nearest? (digits : Nat) (exponent : Int) : Option Float :=
  let size := (Nat.toDigits 10 digits).length + exponent
  if digits = 0 ∨ size < -330 then some 0.0
  else if size > 310 then none
  else
    let value := Float.ofScientific digits (exponent < 0) exponent.natAbs
    if value.isInf then none else some value

/-- Decimal digits with a point or an exponent, and a digit before or behind the point. -/
def decimal? (text : List Char) : Option Float := do
  let whole := text.takeWhile Char.isDigit
  let text := text.dropWhile Char.isDigit
  let (fraction, text) := match text with
    | '.' :: rest => (rest.takeWhile Char.isDigit, rest.dropWhile Char.isDigit)
    | _ => ([], text)
  let digits ← Decimal.natural? 10 (whole ++ fraction)
  let exponent : Int ← match text with
    | [] => some 0
    | mark :: rest =>
        if mark = 'e' ∨ mark = 'E' then
          match rest with
          | '-' :: places => (Decimal.natural? 10 places).map fun n => -(n : Int)
          | '+' :: places => (Decimal.natural? 10 places).map Int.ofNat
          | places => (Decimal.natural? 10 places).map Int.ofNat
        else none
  nearest? digits (exponent - fraction.length)

/-- A decimal with needless leading zeros and no point or exponent is a text. -/
def isZeroPadded (text : List Char) : Bool :=
  let digits := match text with
    | '-' :: rest => rest
    | '+' :: rest => rest
    | _ => text
  match digits with
  | '0' :: rest => !rest.isEmpty && rest.all Char.isDigit
  | _ => false

def real? (text : List Char) : Option Float :=
  let infinity : Float := 1.0 / 0.0
  let unsigned := match text with
    | '+' :: rest => rest
    | _ => text
  if ([".inf", ".Inf", ".INF"].map String.toList).contains unsigned then some infinity
  else if (["-.inf", "-.Inf", "-.INF"].map String.toList).contains text then some (-infinity)
  else if ([".nan", ".NaN", ".NAN"].map String.toList).contains text then some (0.0 / 0.0)
  else if isZeroPadded text then none
  else match text with
    | '-' :: rest => (decimal? rest).map Float.neg
    | _ => decimal? unsigned

/-- Whether a 128-bit word, signed or unsigned, holds an integer. -/
def fitsWideWord (n : Int) : Bool :=
  -0x80000000000000000000000000000000 ≤ n && n < 0x100000000000000000000000000000000

/-- The typed tree of a scalar. An integer that no signed word holds is a real when an
    unsigned one does, and unreadable when only a 128-bit word does. -/
def resolve (text : String) : Tree :=
  if isNull text then .null
  else match bool? text with
    | some value => .bool value
    | none =>
        match integer? text.toList with
        | some n =>
            match Tree.ofInt? n with
            | some t => t
            | none =>
                if 0 ≤ n ∧ n < UInt64.size then .real (Float.ofInt n)
                else if fitsWideWord n then .unreadable
                else match real? text.toList with
                  | some x => .real x
                  | none => .text text
        | none =>
            match real? text.toList with
            | some x => .real x
            | none => .text text

end SchemaGraph.Data.Plain

namespace SchemaGraph.Data.Tree

mutual
/-- Give every scalar without quotes the type that it looks like. -/
def resolve : Tree → Tree
  | .plain value => Plain.resolve value
  | .list items => .list (resolveList items)
  | .map entries => .map (resolveEntries entries)
  | t => t

def resolveList : List Tree → List Tree
  | [] => []
  | item :: rest => item.resolve :: resolveList rest

def resolveEntries : List (Tree × Tree) → List (Tree × Tree)
  | [] => []
  | (key, value) :: rest => (key.resolve, value.resolve) :: resolveEntries rest
end

end SchemaGraph.Data.Tree
