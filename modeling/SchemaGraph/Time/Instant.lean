import SchemaGraph.Time.Date

/-! # Instants

Points in time at Greenwich, to the nanosecond. A minute may have a second 60, so that a
leap second keeps its name.
-/

namespace SchemaGraph.Time

/-- A time of day on a date. -/
structure Instant where
  date : Date
  hour : Nat
  minute : Nat
  second : Nat
  nanosecond : Nat
  valid : hour < 24 ∧ minute < 60 ∧ second ≤ 60 ∧ nanosecond < 1000000000
  deriving Repr, DecidableEq

namespace Instant

/-- The years that instants may lie in. -/
def earliestYear : Int := -262143
def latestYear : Int := 262142

def of? (date : Date) (hour minute second nanosecond : Nat) : Option Instant :=
  if valid : hour < 24 ∧ minute < 60 ∧ second ≤ 60 ∧ nanosecond < 1000000000 then
    some ⟨date, hour, minute, second, nanosecond, valid⟩
  else none

def inRange (date : Date) : Bool := earliestYear ≤ date.year && date.year ≤ latestYear

/-- The same point in time for a place whose clock is `offset` minutes ahead, less than a
    day either way. -/
def behind? (clock : Instant) (offset : Int) : Option Instant :=
  let minutes := (60 * clock.hour + clock.minute : Int) - offset
  let date :=
    if minutes < 0 then clock.date.previous
    else if minutes < 1440 then clock.date
    else clock.date.next
  let ofDay := (minutes % 1440).toNat
  if inRange clock.date && inRange date then
    of? date (ofDay / 60) (ofDay % 60) clock.second clock.nanosecond
  else none

end Instant

end SchemaGraph.Time
