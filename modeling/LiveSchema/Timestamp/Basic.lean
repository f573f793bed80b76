/-!
# Points in time

A timestamp counts the seconds since the start of 1970, in universal time, and the nanoseconds of the
running second.  During a leap second the nanoseconds go on past a whole second.
-/

namespace LiveSchema

/-- A point in time. -/
structure Timestamp where
  seconds : Int
  nanoseconds : Nat
deriving DecidableEq, Repr

/-- A day of the calendar. -/
structure CalendarDay where
  year : Int
  month : Nat
  day : Nat
deriving DecidableEq, Repr

namespace CalendarDay

def isLeapYear (year : Int) : Bool :=
  year % 4 = 0 && (year % 100 ≠ 0 || year % 400 = 0)

/-- How many days a month has. -/
def daysInMonth (year : Int) (month : Nat) : Nat :=
  if month = 2 then if isLeapYear year then 29 else 28
  else if month = 4 ∨ month = 6 ∨ month = 9 ∨ month = 11 then 30
  else 31

/-- Whether the calendar has such a day. -/
def exists? (day : CalendarDay) : Bool :=
  1 ≤ day.month && day.month ≤ 12 && 1 ≤ day.day && day.day ≤ daysInMonth day.year day.month

/-- The number of a day, the first day of 1970 having the number zero.  Years are counted from March
on here, so that the day that leap years add is the last. -/
def toNumber (day : CalendarDay) : Int :=
  let year := if day.month ≤ 2 then day.year - 1 else day.year
  let month : Int := if day.month ≤ 2 then day.month + 9 else day.month - 3
  let ofYear := (153 * month + 2) / 5 + day.day - 1
  365 * year + year / 4 - year / 100 + year / 400 + ofYear - 719468

/-- The day of a number. -/
def ofNumber (number : Int) : CalendarDay :=
  let shifted := number + 719468
  let era := shifted / 146097
  let ofEra := shifted - era * 146097
  let yearOfEra := (ofEra - ofEra / 1460 + ofEra / 36524 - ofEra / 146096) / 365
  let ofYear := ofEra - (365 * yearOfEra + yearOfEra / 4 - yearOfEra / 100)
  let month := (5 * ofYear + 2) / 153
  let day := ofYear - (153 * month + 2) / 5 + 1
  let year := yearOfEra + era * 400
  if month < 10 then ⟨year, (month + 3).toNat, day.toNat⟩
  else ⟨year + 1, (month - 9).toNat, day.toNat⟩

end CalendarDay
end LiveSchema
