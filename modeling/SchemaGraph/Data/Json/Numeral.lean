import SchemaGraph.Data.Tree
import SchemaGraph.Decimal.Digits
import SchemaGraph.Decimal.Scaled

/-! # Numbers in JSON text

A number is an integer when it is written without point and exponent and fits into a
signed 64-bit word; minus zero is not, and becomes a real. Of a real only the leading
digits that fit into an unsigned word count, the others only by their place.
-/

namespace SchemaGraph.Data.Json

/-- Append digits to a number while it fits into an unsigned word; also the count of
    digits left over. -/
def leadingWord : Nat → List Char → Nat × Nat
  | word, [] => (word, 0)
  | word, c :: rest =>
      let next := 10 * word + (c.toNat - '0'.toNat)
      if next < UInt64.size then leadingWord next rest else (word, rest.length + 1)

/-- The real with the given leading digits and power of ten. -/
def real (negative : Bool) (word : Nat) (exponent : Int) : Tree :=
  match Decimal.scaled (UInt64.ofNat word) exponent with
  | some x => .real (if negative then -x else x)
  | none => .unreadable

/-- The number whose digits all fit into an unsigned word. -/
def whole (negative : Bool) (word : Nat) : Tree :=
  let size := (UInt64.ofNat word).toFloat
  if negative then
    if word = 0 then .real (-size) else (Tree.ofInt? (-(word : Int))).getD (.real (-size))
  else (Tree.ofInt? word).getD (.real size)

/-- An exponent behind its mark: an optional sign and at least one digit. -/
def exponent? (text : List Char) : Option (Int × List Char) :=
  let (negative, text) := match text with
    | '-' :: rest => (true, rest)
    | '+' :: rest => (false, rest)
    | _ => (false, text)
  match Decimal.natural? 10 (text.takeWhile Char.isDigit) with
  | none => none
  | some n => some (if negative then -(n : Int) else n, text.dropWhile Char.isDigit)

/-- A number behind its sign, and the rest of the text. -/
def unsigned? (negative : Bool) (text : List Char) : Option (Tree × List Char) :=
  let digits := text.takeWhile Char.isDigit
  let text := text.dropWhile Char.isDigit
  let wellFormed := match digits with
    | [] => false
    | '0' :: rest => rest.isEmpty
    | _ => true
  if !wellFormed then none
  else
    let (word, excess) := leadingWord 0 digits
    let fraction? : Option (Option (List Char) × List Char) := match text with
      | '.' :: rest =>
          let places := rest.takeWhile Char.isDigit
          if places.isEmpty then none else some (some places, rest.dropWhile Char.isDigit)
      | _ => some (none, text)
    match fraction? with
    | none => none
    | some (fraction, text) =>
        let (word', left) := leadingWord word (fraction.getD [])
        let scale : Int := excess - ((fraction.getD []).length - left : Nat)
        let withExponent := match text with
          | mark :: rest => if mark = 'e' ∨ mark = 'E' then some (exponent? rest) else none
          | [] => none
        match withExponent with
        | some none => none
        | some (some (exponent, rest)) => some (real negative word' (scale + exponent), rest)
        | none =>
            if excess = 0 ∧ fraction.isNone then some (whole negative word, text)
            else some (real negative word' scale, text)

/-- A number with an optional minus sign, and the rest of the text. -/
def number? : List Char → Option (Tree × List Char)
  | '-' :: rest => unsigned? true rest
  | text => unsigned? false text

end SchemaGraph.Data.Json
