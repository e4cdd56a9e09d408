import SchemaGraph.Time.Instant
import SchemaGraph.Decimal.Digits
import SchemaGraph.Text.Blank

/-! # Written instants

Instants are written as RFC 3339 says, in the shortest fraction of zero, three, six or
nine digits. Reading is more liberal: numbers may lack leading zeros or stand behind
blanks, a blank or `t` may stand for `T`, `z` or `UTC` for `Z`, and digits beyond the
nanoseconds are dropped.
-/

namespace SchemaGraph.Time.Instant

/-- A number in at least `width` digits. -/
def padded (width n : Nat) : String :=
  let digits := Nat.toDigits 10 n
  String.ofList (List.replicate (width - digits.length) '0' ++ digits)

/-- A year in four digits, and with a sign when it needs more or lies before the year 0. -/
def yearText (year : Int) : String :=
  if 0 ≤ year ∧ year ≤ 9999 then padded 4 year.toNat
  else (if year < 0 then "-" else "+") ++ padded 4 year.natAbs

def fractionText (nanosecond : Nat) : String :=
  if nanosecond = 0 then ""
  else if nanosecond % 1000000 = 0 then "." ++ padded 3 (nanosecond / 1000000)
  else if nanosecond % 1000 = 0 then "." ++ padded 6 (nanosecond / 1000)
  else "." ++ padded 9 nanosecond

/-- The written form. -/
def write (i : Instant) : String :=
  yearText i.date.year ++ "-" ++ padded 2 i.date.month ++ "-" ++ padded 2 i.date.day ++ "T" ++
    padded 2 i.hour ++ ":" ++ padded 2 i.minute ++ ":" ++ padded 2 i.second ++
    fractionText i.nanosecond ++ "Z"

def skipBlank (text : List Char) : List Char := text.dropWhile Text.isBlank

/-- A number of one to `most` digits. -/
def number? (most : Nat) (text : List Char) : Option (Nat × List Char) := do
  let digits := (text.take most).takeWhile Char.isDigit
  let n ← Decimal.natural? 10 digits
  return (n, text.drop digits.length)

/-- A number of one or two digits, behind blanks. -/
def twoDigits? (text : List Char) : Option (Nat × List Char) := number? 2 (skipBlank text)

/-- A year of up to four digits, or of any length behind a sign. -/
def year? (text : List Char) : Option (Int × List Char) :=
  match skipBlank text with
  | '-' :: rest => (number? rest.length rest).map fun found => (-(found.1 : Int), found.2)
  | '+' :: rest => (number? rest.length rest).map fun found => ((found.1 : Int), found.2)
  | text => (number? 4 text).map fun found => ((found.1 : Int), found.2)

/-- The text behind a certain character, which may stand behind blanks. -/
def mark? (c : Char) (text : List Char) : Option (List Char) :=
  match skipBlank text with
  | first :: rest => if first = c then some rest else none
  | [] => none

/-- A fraction of a second in nanoseconds, if there is one. -/
def fraction? (text : List Char) : Option (Nat × List Char) :=
  match text with
  | '.' :: rest => do
      let digits := (rest.take 9).takeWhile Char.isDigit
      let n ← Decimal.natural? 10 digits
      return (n * Nat.pow 10 (9 - digits.length), rest.dropWhile Char.isDigit)
  | _ => some (0, text)

/-- Hours and minutes of an offset behind its sign, in minutes. -/
def offsetSize? (text : List Char) : Option (Nat × List Char) := do
  match text with
  | h1 :: h2 :: rest =>
      let hours ← Decimal.natural? 10 [h1, h2]
      match rest.dropWhile fun c => c = ':' || Text.isBlank c with
      | m1 :: m2 :: rest =>
          let minutes ← Decimal.natural? 10 [m1, m2]
          if minutes < 60 ∧ 60 * hours + minutes < 1440 then
            return (60 * hours + minutes, rest)
          else none
      | _ => none
  | _ => none

/-- How far a local clock is ahead, in minutes. -/
def offset? (text : List Char) : Option (Int × List Char) :=
  match text with
  | 'Z' :: rest => some (0, rest)
  | 'z' :: rest => some (0, rest)
  | '+' :: rest => (offsetSize? rest).map fun found => ((found.1 : Int), found.2)
  | '-' :: rest => (offsetSize? rest).map fun found => (-(found.1 : Int), found.2)
  | '\u2212' :: rest => (offsetSize? rest).map fun found => (-(found.1 : Int), found.2)
  | text =>
      if (text.take 3).map Char.toUpper = ['U', 'T', 'C'] then some (0, text.drop 3) else none

/-- The instant that a text names. -/
def read? (text : String) : Option Instant := do
  let (year, rest) ← year? text.toList
  let (month, rest) ← twoDigits? (← mark? '-' rest)
  let (day, rest) ← twoDigits? (← mark? '-' rest)
  let rest ← match rest with
    | c :: rest => if c = 'T' ∨ c = 't' ∨ c = ' ' then some rest else none
    | [] => none
  let (hour, rest) ← twoDigits? rest
  let (minute, rest) ← twoDigits? (← mark? ':' rest)
  let (second, rest) ← twoDigits? (← mark? ':' rest)
  let (nanosecond, rest) ← fraction? rest
  let (offset, rest) ← offset? (skipBlank rest)
  if (skipBlank rest).isEmpty then
    let date ← Date.of? year month day
    let clock ← of? date hour minute second nanosecond
    clock.behind? offset
  else none

end SchemaGraph.Time.Instant
