import LiveSchema.Text.Digits
import LiveSchema.Timestamp.Basic

/-!
# Writing timestamps

A timestamp is written as date and time with `T` between them.  The fraction of the second has no
digits, three, six or nine: the fewest that hold it.
-/

namespace LiveSchema

/-- A number with zeros before it, up to a width. -/
def padded (width n : Nat) : String :=
  let digits := Text.ofNat n
  String.ofList (List.replicate (width - digits.length) '0' ++ digits)

namespace Timestamp

/-- A year: four digits, or a sign and at least four digits outside of the years 0 to 9999. -/
def renderYear (year : Int) : String :=
  if 0 ≤ year ∧ year ≤ 9999 then padded 4 year.toNat
  else (if year < 0 then "-" else "+") ++ padded 4 year.natAbs

/-- The fraction of a second. -/
def renderFraction (nanoseconds : Nat) : String :=
  if nanoseconds = 0 then ""
  else if nanoseconds % 1000000 = 0 then "." ++ padded 3 (nanoseconds / 1000000)
  else if nanoseconds % 1000 = 0 then "." ++ padded 6 (nanoseconds / 1000)
  else "." ++ padded 9 nanoseconds

/-- The text of a timestamp in universal time, with the given mark for that zone. -/
def render (zone : String) (time : Timestamp) : String :=
  let day := CalendarDay.ofNumber (time.seconds / 86400)
  let ofDay := (time.seconds % 86400).toNat
  let leap := if 1000000000 ≤ time.nanoseconds then 1 else 0
  renderYear day.year ++ "-" ++ padded 2 day.month ++ "-" ++ padded 2 day.day ++ "T" ++
    padded 2 (ofDay / 3600) ++ ":" ++ padded 2 (ofDay / 60 % 60) ++ ":" ++
    padded 2 (ofDay % 60 + leap) ++
    renderFraction (time.nanoseconds - leap * 1000000000) ++ zone

end Timestamp
end LiveSchema
