import RecordSource.Time.Calendar

/-!
Instants as text, to the millisecond and in universal time: `2024-03-01T12:00:00.000Z`. Up to the end of the year
9999 all texts have one length and sort as the instants do.
-/
namespace RecordSource.Time

/-- The last year of the calendar. -/
def lastYear : Nat := 262142

/-- The last millisecond of that year. -/
def lastMillis : Nat := 8210266876799999

/-- A number in at least `width` decimal digits. -/
def padded (width n : Nat) : List Char :=
  let ds := Nat.toDigits 10 n
  List.replicate (width - ds.length) '0' ++ ds

/-- Years beyond 9999 carry a sign. -/
def yearText (year : Nat) : List Char := if 9999 < year then '+' :: padded 4 year else padded 4 year

def stampText (millis : Nat) : List Char :=
  let date := Date.ofDays (epochDays + millis / 86400000)
  let time := millis % 86400000
  yearText date.year ++ '-' :: padded 2 date.month ++ '-' :: padded 2 date.day ++
    'T' :: padded 2 (time / 3600000) ++ ':' :: padded 2 (time / 60000 % 60) ++
    ':' :: padded 2 (time / 1000 % 60) ++ '.' :: padded 3 (time % 1000) ++ ['Z']

/-- A count as signed numbers of 64 bits hold it: one that is too large becomes the largest of them. -/
def signed (millis : Nat) : Nat := min millis 9223372036854775807

/-- An instant given in milliseconds since 1970, if the calendar has it. -/
def inCalendar? (millis : Nat) : Option Nat :=
  if (Date.ofDays (epochDays + millis / 86400000)).year ≤ lastYear then some millis else none

/-- The text of an instant given in milliseconds since 1970. Instants out of range are written as 1970 itself. -/
def stamp (millis : Nat) : String := String.ofList (stampText ((inCalendar? (signed millis)).getD 0))

example : stamp 1709294400000 = "2024-03-01T12:00:00.000Z" := by decide +kernel

example : stamp lastMillis = "+262142-12-31T23:59:59.999Z" := by decide +kernel

example : stamp (lastMillis + 1) = stamp 0 := by decide +kernel

end RecordSource.Time
