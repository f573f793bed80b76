import LiveSchema.Text.Blank
import LiveSchema.Text.Digits
import LiveSchema.Timestamp.Basic

/-!
# Reading timestamps

The reader takes dates and times in the written form and in some variants of it: blanks between the
parts, a blank or a small `t` between date and time, numbers with fewer digits, and any offset from
universal time.  Without an offset a text is no timestamp.
-/

namespace LiveSchema
namespace Timestamp

/-- A number of at least one and at most `width` digits, behind blanks. -/
def readNumber? (width : Nat) (text : List Char) : Option (Nat × List Char) :=
  let text := Text.trimStart text
  let digits := (text.takeWhile Char.isDigit).take width
  if digits = [] then none else some (Text.ofDigits digits, text.drop digits.length)

/-- A mark, behind blanks. -/
def readMark? (mark : Char) (text : List Char) : Option (List Char) :=
  match Text.trimStart text with
  | c :: rest => if c = mark then some rest else none
  | [] => none

/-- A number of any number of digits, without blanks before it. -/
def readDigits? (text : List Char) : Option (Nat × List Char) :=
  let digits := text.takeWhile Char.isDigit
  if digits = [] then none else some (Text.ofDigits digits, text.dropWhile Char.isDigit)

/-- A year, behind blanks.  A year with a sign may have any number of digits. -/
def readYear? (text : List Char) : Option (Int × List Char) :=
  match Text.trimStart text with
  | '-' :: rest => (readDigits? rest).map fun (n, rest) => (-(n : Int), rest)
  | '+' :: rest => (readDigits? rest).map fun (n, rest) => ((n : Int), rest)
  | text => (readNumber? 4 text).map fun (n, rest) => ((n : Int), rest)

/-- A date. -/
def readDay? (text : List Char) : Option (CalendarDay × List Char) := do
  let (year, rest) ← readYear? text
  let rest ← readMark? '-' rest
  let (month, rest) ← readNumber? 2 rest
  let rest ← readMark? '-' rest
  let (day, rest) ← readNumber? 2 rest
  return (⟨year, month, day⟩, rest)

/-- The nanoseconds behind a point, none if there is no point.  Digits beyond the ninth are passed
over. -/
def readFraction? : List Char → Option (Nat × List Char)
  | '.' :: rest =>
    let digits := rest.takeWhile Char.isDigit
    let counted := digits.take 9
    if digits = [] then none
    else
      some (Text.ofDigits counted * Nat.pow 10 (9 - counted.length), rest.dropWhile Char.isDigit)
  | text => some (0, text)

/-- Two digits that count hours or minutes. -/
def readPair? : List Char → Option (Nat × List Char)
  | a :: b :: rest =>
    if a.isDigit && b.isDigit then some (Text.ofDigits [a, b], rest) else none
  | _ => none

/-- The seconds of an offset, in hours and minutes with any number of colons and blanks between
them. -/
def readOffset? (text : List Char) : Option (Int × List Char) := do
  let (hours, rest) ← readPair? text
  let (minutes, rest) ← readPair? (rest.dropWhile fun c => c = ':' || Text.isBlank c)
  if minutes < 60 then return (hours * 3600 + minutes * 60, rest) else none

/-- The seconds that a zone is ahead of universal time. -/
def readZone? (text : List Char) : Option (Int × List Char) :=
  match text with
  | 'Z' :: rest | 'z' :: rest => some (0, rest)
  | '+' :: rest => readOffset? rest
  | '-' :: rest | '−' :: rest => (readOffset? rest).map fun (seconds, rest) => (-seconds, rest)
  | u :: t :: c :: rest =>
    if [u, t, c].map Char.toUpper = ['U', 'T', 'C'] then some (0, rest) else none
  | _ => none

/-- Whether a day lies in the years that timestamps may have. -/
def isInRange (number : Int) : Bool :=
  CalendarDay.toNumber ⟨-262143, 1, 1⟩ ≤ number && number ≤ CalendarDay.toNumber ⟨262142, 12, 31⟩

/-- The point in time that a text spells.  Its day has to be in range both as it is spelled and in
universal time. -/
def parse? (text : String) : Option Timestamp := do
  let (day, rest) ← readDay? text.toList
  let rest ← match rest with
    | 't' :: rest | 'T' :: rest | ' ' :: rest => some rest
    | _ => none
  let (hour, rest) ← readNumber? 2 rest
  let rest ← readMark? ':' rest
  let (minute, rest) ← readNumber? 2 rest
  let rest ← readMark? ':' rest
  let (second, rest) ← readNumber? 2 rest
  let (nanoseconds, rest) ← readFraction? rest
  let (ahead, rest) ← readZone? (Text.trimStart rest)
  let leap : Nat := if second = 60 then 1 else 0
  let ofDay : Int := hour * 3600 + minute * 60 + (second - leap)
  let seconds := day.toNumber * 86400 + ofDay - ahead
  if Text.trimStart rest = [] ∧ day.exists? ∧ hour < 24 ∧ minute < 60 ∧ second ≤ 60 ∧
      ahead.natAbs < 86400 ∧ isInRange day.toNumber ∧ isInRange (seconds / 86400) then
    some ⟨seconds, nanoseconds + leap * 1000000000⟩
  else none

end Timestamp
end LiveSchema
