/-!
The Gregorian calendar, extended to all years, and the count of days since the start of 1970.
-/

namespace VirtualClock

/-- A calendar date; the year before 1 is 0, and the one before that -1. -/
structure Date where
  year : Int
  month : Nat
  day : Nat
deriving DecidableEq, Repr

namespace Date

/-- Every fourth year is a leap year, but of the full centuries only every fourth. -/
def isLeapYear (year : Int) : Bool := year % 4 == 0 && (year % 100 != 0 || year % 400 == 0)

/-- The number of days of a month. -/
def daysInMonth (year : Int) (month : Nat) : Nat :=
  match month with
  | 2 => if isLeapYear year then 29 else 28
  | 4 | 6 | 9 | 11 => 30
  | _ => 31

/-- The date `day`, if the calendar has it. -/
def ofFields? (year : Int) (month day : Nat) : Option Date :=
  if 1 ≤ month ∧ month ≤ 12 ∧ 1 ≤ day ∧ day ≤ daysInMonth year month then some ⟨year, month, day⟩
  else none

/-- The days from 1970-01-01 to `d`. Years are counted from March, so that a leap day is the last
day of its year and the months before it repeat every five with 153 days. -/
def toDays (d : Date) : Int :=
  let year : Int := if d.month ≤ 2 then d.year - 1 else d.year
  let month : Int := if d.month ≤ 2 then d.month + 9 else d.month - 3
  365 * year + year / 4 - year / 100 + year / 400 + (153 * month + 2) / 5 + d.day - 719469

/-- The date `days` days after 1970-01-01. A cycle of 400 years has 146097 days. -/
def ofDays (days : Int) : Date :=
  let shifted := days + 719468
  let cycle := shifted / 146097
  let inCycle := shifted % 146097
  let year := (inCycle - inCycle / 1460 + inCycle / 36524 - inCycle / 146096) / 365
  let inYear := inCycle - (365 * year + year / 4 - year / 100)
  let month := (5 * inYear + 2) / 153
  let day := inYear - (153 * month + 2) / 5 + 1
  if month < 10 then ⟨year + 400 * cycle, (month + 3).toNat, day.toNat⟩
  else ⟨year + 400 * cycle + 1, (month - 9).toNat, day.toNat⟩

example : (⟨1970, 1, 1⟩ : Date).toDays = 0 ∧ (⟨-262143, 1, 1⟩ : Date).toDays = -96465292 ∧
    (⟨262142, 12, 31⟩ : Date).toDays = 95026236 := by decide

example : ofDays 0 = ⟨1970, 1, 1⟩ ∧ ofDays (-96465292) = ⟨-262143, 1, 1⟩ ∧
    ofDays 95026236 = ⟨262142, 12, 31⟩ ∧ ofDays 11016 = ⟨2000, 2, 29⟩ := by decide

end Date

end VirtualClock
