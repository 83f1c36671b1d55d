/-!
Days of the Gregorian calendar, counted from the first of January of the year 1. A cycle of 400 years has 146097
days; within it come centuries of 36524 days, spans of four years of 1461 and years of 365, the last of each kind
longer by the leap day.
-/
namespace RecordSource.Time

def isLeap (year : Nat) : Bool := year % 4 == 0 && (year % 100 != 0 || year % 400 == 0)

/-- The days of a year before each of its months. -/
def daysBefore (leap : Bool) (month : Nat) : Nat :=
  let extra := if leap then 1 else 0
  match month with
  | 0 | 1 => 0
  | 2 => 31
  | 3 => 59 + extra
  | 4 => 90 + extra
  | 5 => 120 + extra
  | 6 => 151 + extra
  | 7 => 181 + extra
  | 8 => 212 + extra
  | 9 => 243 + extra
  | 10 => 273 + extra
  | 11 => 304 + extra
  | 12 => 334 + extra
  | _ => 365 + extra

/-- A day of the calendar; months and days count from 1. -/
structure Date where
  year : Nat
  month : Nat
  day : Nat
  deriving DecidableEq, Repr

namespace Date

/-- The month in which a day of the year falls, days counted from 0. -/
def monthOf (leap : Bool) (dayOfYear : Nat) : Nat → Nat
  | 0 => 1
  | m + 1 => if daysBefore leap (m + 1) ≤ dayOfYear then m + 1 else monthOf leap dayOfYear m

/-- The day with the given number of days before it since the start of the year 1. -/
def ofDays (days : Nat) : Date :=
  let cycles := days / 146097
  let inCycle := days % 146097
  let centuries := min (inCycle / 36524) 3
  let inCentury := inCycle - centuries * 36524
  let spans := inCentury / 1461
  let inSpan := inCentury % 1461
  let years := min (inSpan / 365) 3
  let dayOfYear := inSpan - years * 365
  let year := cycles * 400 + centuries * 100 + spans * 4 + years + 1
  let leap := isLeap year
  let month := monthOf leap dayOfYear 12
  ⟨year, month, dayOfYear - daysBefore leap month + 1⟩

/-- The days before a date since the start of the year 1. -/
def toDays (d : Date) : Nat :=
  let y := d.year - 1
  y * 365 + y / 4 - y / 100 + y / 400 + daysBefore (isLeap d.year) d.month + (d.day - 1)

end Date

/-- The days before the first of January 1970. -/
def epochDays : Nat := 719162

example : Date.ofDays epochDays = ⟨1970, 1, 1⟩ := by decide

example : Date.ofDays 738944 = ⟨2024, 2, 29⟩ := by decide

end RecordSource.Time
