import LiveSchema.Numeric.Shortest

/-!
# Written forms of floating-point numbers

A `DecimalStyle` says how the shortest decimal of a number is laid out.  There are two styles:
documents write very large and very small numbers with an exponent and mark every number as a
fraction; text made from a stored number is always positional and marks no whole number.
-/

namespace LiveSchema

/-- How a floating-point number is written. -/
structure DecimalStyle where
  /-- Whether a number whose first digit has this power of ten is written without an exponent. -/
  positional : Int → Bool
  /-- Whether a whole number is written with `.0` at its end. -/
  fractionKept : Bool
  /-- Which of two equally near shortest decimals is written. -/
  tie : Tie

namespace DecimalStyle

/-- The form of numbers in documents: an exponent below `-5` and above `15`, always with its sign. -/
def document : DecimalStyle where
  positional exponent := -5 ≤ exponent && exponent ≤ 15
  fractionKept := true
  tie := .even

/-- The form of a number that becomes a text value: never an exponent. -/
def plain : DecimalStyle where
  positional _ := true
  fractionKept := false
  tie := .up

/-- Digits with a point after the digit of power zero. -/
def layoutPositional (style : DecimalStyle) (d : Decimal) : String :=
  let digits := d.digits
  if 0 ≤ d.exponent then
    String.ofList (digits ++ List.replicate d.exponent.toNat '0') ++
      (if style.fractionKept then ".0" else "")
  else
    let places := (-d.exponent).toNat
    if places < digits.length then
      String.ofList (digits.take (digits.length - places)) ++ "." ++
        String.ofList (digits.drop (digits.length - places))
    else
      "0." ++ String.ofList (List.replicate (places - digits.length) '0' ++ digits)

/-- One digit before the point and the power of ten behind. -/
def layoutExponent (d : Decimal) : String :=
  let mantissa :=
    match d.digits with
    | [] => "0"
    | [digit] => String.ofList [digit]
    | digit :: rest => String.ofList (digit :: '.' :: rest)
  let exponent := d.leadingExponent
  mantissa ++ (if exponent < 0 then "e-" else "e+") ++ Nat.repr exponent.natAbs

/-- The written form of a number. -/
def render (style : DecimalStyle) (x : Binary64) : String :=
  let d := x.shortest style.tie
  (if x.negative then "-" else "") ++
    (if style.positional d.leadingExponent then style.layoutPositional d else layoutExponent d)

end DecimalStyle
end LiveSchema
