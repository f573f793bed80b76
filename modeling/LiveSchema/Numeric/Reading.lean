import LiveSchema.Numeric.Binary64
import LiveSchema.Text.Digits

/-!
# Reading numbers

Two readings of text as a number: signed and unsigned integers of 64 bits, and floating-point numbers
with an optional fraction, exponent and sign, to which the words for infinity and for an undefined
number belong.
-/

namespace LiveSchema

/-- The integers that fit into 64 bits with a sign. -/
def InSigned64 (i : Int) : Prop :=
  -0x8000000000000000 ≤ i ∧ i < 0x8000000000000000

instance (i : Int) : Decidable (InSigned64 i) :=
  inferInstanceAs (Decidable (_ ∧ _))

/-- What text says about a floating-point number. -/
inductive Real64 where
  | finite (x : Binary64)
  | infinite (negative : Bool)
  | undefined
deriving DecidableEq, Repr

namespace Reading

/-- The sign at the start of a text, true for a minus, and the text behind it. -/
def sign : List Char → Bool × List Char
  | '+' :: rest => (false, rest)
  | '-' :: rest => (true, rest)
  | text => (false, text)

/-- The signed integer of 64 bits that a text spells. -/
def signed64? (text : List Char) : Option Int := do
  let (negative, digits) := sign text
  let magnitude ← Text.natural? digits
  let value : Int := if negative then -magnitude else magnitude
  if InSigned64 value then some value else none

/-- The unsigned integer of 64 bits that a text spells; a plus sign may stand before it. -/
def unsigned64? (text : List Char) : Option Nat := do
  let digits := match text with
    | '+' :: rest => rest
    | _ => text
  let value ← Text.natural? digits
  if value < 0x10000000000000000 then some value else none

/-- The exponent that a text spells behind its mark; an empty text stands for zero. -/
def exponent? : List Char → Option Int
  | [] => some 0
  | mark :: rest =>
    if mark = 'e' ∨ mark = 'E' then
      let (negative, digits) := sign rest
      (Text.natural? digits).map fun n => if negative then -(n : Int) else n
    else none

/-- The unsigned decimal number that a text spells, as coefficient and power of ten. -/
def decimal? (text : List Char) : Option (Nat × Int) := do
  let whole := text.takeWhile Char.isDigit
  let behind := text.dropWhile Char.isDigit
  let (fraction, behind) := match behind with
    | '.' :: rest => (rest.takeWhile Char.isDigit, rest.dropWhile Char.isDigit)
    | _ => ([], behind)
  if whole = [] ∧ fraction = [] then none
  else
    let exponent ← exponent? behind
    return (Text.ofDigits (whole ++ fraction), exponent - fraction.length)

/-- The floating-point number that a text spells. -/
def real64? (text : List Char) : Option Real64 :=
  let (negative, unsigned) := sign text
  match decimal? unsigned with
  | some (coefficient, exponent) =>
    match Binary64.ofDecimal? negative coefficient exponent with
    | some x => some (.finite x)
    | none => some (.infinite negative)
  | none =>
    let word := unsigned.map Char.toLower
    if word = "inf".toList ∨ word = "infinity".toList then some (.infinite negative)
    else if word = "nan".toList then some .undefined
    else none

end Reading
end LiveSchema
