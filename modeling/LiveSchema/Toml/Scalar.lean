import LiveSchema.Timestamp.Printer
import LiveSchema.Toml.Basic

/-!
# Numbers, truth values and times in TOML

A value without quotes or brackets is a truth value, an integer, a floating-point number, or a date
and time.  Its whole text has to be one of these; integers have to fit into 64 bits with a sign.
-/

namespace LiveSchema
namespace Toml

/-! ## Integers -/

/-- The digits of a number with underscores between them. -/
def digitsOf? (isDigit : Char → Bool) (text : List Char) : Option (List Char) :=
  let parts := text.splitOn '_'
  if parts.all fun part => part ≠ [] && part.all isDigit then some parts.flatten else none

/-- The digits of a whole number, which do not start with a zero unless there is no other. -/
def wholeOf? (text : List Char) : Option (List Char) := do
  let digits ← digitsOf? Char.isDigit text
  if digits.length = 1 ∨ digits.head? ≠ some '0' then some digits else none

/-- Whether a character is a digit in a base of at most sixteen. -/
def isDigitOf (base : Nat) (c : Char) : Bool :=
  (Text.hexValue? c).any fun value => value < base

/-- The number that digits spell in a base. -/
def magnitude? (base : Nat) (text : List Char) : Option Nat := do
  let digits ← digitsOf? (isDigitOf base) text
  return digits.foldl (fun sofar c => sofar * base + (Text.hexValue? c).getD 0) 0

/-- The integer that a text spells, whatever its size. -/
def integer? (text : List Char) : Option Int :=
  match text with
  | '0' :: 'x' :: digits => (magnitude? 16 digits).map Int.ofNat
  | '0' :: 'o' :: digits => (magnitude? 8 digits).map Int.ofNat
  | '0' :: 'b' :: digits => (magnitude? 2 digits).map Int.ofNat
  | _ =>
    let (negative, unsigned) := Reading.sign text
    (wholeOf? unsigned).map fun digits =>
      if negative then -(Text.ofDigits digits : Int) else Text.ofDigits digits

/-! ## Floating-point numbers -/

/-- The power of ten that a text behind the mark of an exponent spells. -/
def exponent? (text : List Char) : Option Int :=
  let (negative, unsigned) := Reading.sign text
  (digitsOf? Char.isDigit unsigned).map fun digits =>
    if negative then -(Text.ofDigits digits : Int) else Text.ofDigits digits

/-- The finite number that an unsigned text spells: it has a fraction, an exponent or both. -/
def finite? (negative : Bool) (text : List Char) : Option Binary64 := do
  let isMark := fun c => c = 'e' || c = 'E'
  let mantissa := text.takeWhile fun c => !isMark c
  let exponent ← match text.drop mantissa.length with
    | [] => some 0
    | _ :: rest => exponent? rest
  let whole := mantissa.takeWhile fun c => c ≠ '.'
  let fraction ← match mantissa.drop whole.length with
    | [] => if mantissa.length = text.length then none else some []
    | _ :: rest => digitsOf? Char.isDigit rest
  let digits := (← wholeOf? whole) ++ fraction
  Binary64.ofDecimal? negative (Text.ofDigits digits) (exponent - fraction.length)

/-- The floating-point number that a text spells. -/
def float? (text : List Char) : Option Real64 :=
  let (negative, unsigned) := Reading.sign text
  if unsigned = "inf".toList then some (.infinite negative)
  else if unsigned = "nan".toList then some .undefined
  else (finite? negative unsigned).map .finite

/-! ## Dates and times -/

/-- A number of `width` digits at the start of a text. -/
def readFixed? (width : Nat) (text : List Char) : Option (Nat × List Char) :=
  let digits := text.take width
  if digits.length = width ∧ digits.all Char.isDigit then
    some (Text.ofDigits digits, text.drop width)
  else none

/-- The text behind a mark. -/
def afterMark? (mark : Char) : List Char → Option (List Char)
  | c :: rest => if c = mark then some rest else none
  | [] => none

/-- The standard text of a date. -/
def readDate? (text : List Char) : Option (String × List Char) := do
  let (year, rest) ← readFixed? 4 text
  let (month, rest) ← readFixed? 2 (← afterMark? '-' rest)
  let (day, rest) ← readFixed? 2 (← afterMark? '-' rest)
  if (CalendarDay.mk year month day).exists? then
    some (padded 4 year ++ "-" ++ padded 2 month ++ "-" ++ padded 2 day, rest)
  else none

/-- The standard text of the fraction of a second: at most nine digits, without zeros at the end. -/
def readFraction? : List Char → Option (String × List Char)
  | '.' :: rest =>
    let digits := rest.takeWhile Char.isDigit
    let counted := ((digits.take 9).reverse.dropWhile fun c => c = '0').reverse
    if digits = [] then none
    else
      let fraction := if counted = [] then "0" else String.ofList counted
      some ("." ++ fraction, rest.drop digits.length)
  | text => some ("", text)

/-- The standard text of the seconds, which may be left out. -/
def readSeconds? (text : List Char) : Option (String × List Char) :=
  match text with
  | ':' :: rest => do
    let (second, rest) ← readFixed? 2 rest
    let (fraction, rest) ← readFraction? rest
    if second ≤ 60 then some (":" ++ padded 2 second ++ fraction, rest) else none
  | _ => some ("", text)

/-- The standard text of a time of day. -/
def readClock? (text : List Char) : Option (String × List Char) := do
  let (hour, rest) ← readFixed? 2 text
  let (minute, rest) ← readFixed? 2 (← afterMark? ':' rest)
  let (seconds, rest) ← readSeconds? rest
  if hour < 24 ∧ minute < 60 then some (padded 2 hour ++ ":" ++ padded 2 minute ++ seconds, rest)
  else none

/-- The standard text of an offset from universal time, if there is one. -/
def zone? : List Char → Option String
  | [] => some ""
  | ['Z'] | ['z'] => some "Z"
  | sign :: rest => do
    let (hours, rest) ← readFixed? 2 rest
    let (minutes, rest) ← readFixed? 2 (← afterMark? ':' rest)
    if rest = [] ∧ hours < 24 ∧ minutes < 60 ∧ (sign = '+' ∨ sign = '-') then
      let sign := if sign = '-' ∧ hours + minutes ≠ 0 then "-" else "+"
      some (sign ++ padded 2 hours ++ ":" ++ padded 2 minutes)
    else none

/-- The standard text of a date, a time, or both with an offset. -/
def time? (text : List Char) : Option String :=
  match readDate? text with
  | some (date, []) => some date
  | some (date, mark :: rest) => do
    if mark = 'T' ∨ mark = 't' ∨ mark = ' ' then
      let (clock, rest) ← readClock? rest
      return date ++ "T" ++ clock ++ (← zone? rest)
    else none
  | none =>
    match readClock? text with
    | some (clock, []) => some clock
    | _ => none

/-! ## All of them -/

/-- The value that a text without quotes and brackets spells. -/
def scalar? (text : List Char) : Option TomlValue :=
  if text = "true".toList then some (.bool true)
  else if text = "false".toList then some (.bool false)
  else
    match integer? text with
    | some value => if InSigned64 value then some (.integer value) else none
    | none =>
      match float? text with
      | some value => some (.float value)
      | none => (time? text).map .time

end Toml
end LiveSchema
