/-! # Calendar dates

Days of the Gregorian calendar, counted backwards and forwards without end.
-/

namespace SchemaGraph.Time

def isLeap (year : Int) : Bool := year % 4 = 0 && (year % 100 ≠ 0 || year % 400 = 0)

def monthLength (year : Int) (month : Nat) : Nat :=
  if month = 2 then if isLeap year then 29 else 28
  else if month = 4 ∨ month = 6 ∨ month = 9 ∨ month = 11 then 30
  else 31

theorem monthLength_pos (year : Int) (month : Nat) : 1 ≤ monthLength year month := by
  simp only [monthLength]; repeat' split
  all_goals decide

/-- A day that the calendar has. -/
structure Date where
  year : Int
  month : Nat
  day : Nat
  valid : (1 ≤ month ∧ month ≤ 12) ∧ 1 ≤ day ∧ day ≤ monthLength year month
  deriving Repr, DecidableEq

namespace Date

def of? (year : Int) (month day : Nat) : Option Date :=
  if valid : (1 ≤ month ∧ month ≤ 12) ∧ 1 ≤ day ∧ day ≤ monthLength year month then
    some ⟨year, month, day, valid⟩
  else none

/-- The following day. -/
def next (d : Date) : Date :=
  if inMonth : d.day < monthLength d.year d.month then
    ⟨d.year, d.month, d.day + 1, d.valid.1, by omega, by omega⟩
  else if inYear : d.month < 12 then
    ⟨d.year, d.month + 1, 1, ⟨by omega, by omega⟩, by omega, monthLength_pos _ _⟩
  else ⟨d.year + 1, 1, 1, ⟨by omega, by omega⟩, by omega, monthLength_pos _ _⟩

/-- The preceding day. -/
def previous (d : Date) : Date :=
  have valid := d.valid
  if inMonth : 1 < d.day then
    ⟨d.year, d.month, d.day - 1, valid.1, by omega, by omega⟩
  else if inYear : 1 < d.month then
    ⟨d.year, d.month - 1, monthLength d.year (d.month - 1), ⟨by omega, by omega⟩,
      monthLength_pos _ _, Nat.le_refl _⟩
  else ⟨d.year - 1, 12, 31, ⟨by omega, by omega⟩, by omega, by simp [monthLength]⟩

end Date

end SchemaGraph.Time
