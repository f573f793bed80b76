import LiveSchema.Numeric.Rounding

/-!
# Finite binary floating-point numbers

A `Binary64` is a finite number of the 64-bit format, kept as sign, significand and exponent in
canonical form, so that equality of numbers is equality of the structure.  Zero has two signs.
-/

namespace LiveSchema

/-- The number `± significand * 2 ^ exponent`. -/
structure Binary64 where
  negative : Bool
  significand : Nat
  exponent : Int
  canonical : Format.binary64.Canonical significand exponent
deriving DecidableEq, Repr

namespace Binary64

/-- The number with a given sign and canonical pair, unless the pair is out of range. -/
def ofPair? (negative : Bool) (pair : Nat × Int) : Option Binary64 :=
  if canonical : Format.binary64.Canonical pair.1 pair.2 then
    some ⟨negative, pair.1, pair.2, canonical⟩
  else none

/-- The number nearest to a quotient, or nothing if that is not finite. -/
def ofRatio? (negative : Bool) (numerator denominator : Nat) : Option Binary64 :=
  ofPair? negative (Format.binary64.nearest numerator denominator)

/-- The number nearest to an integer, or nothing if that is not finite. -/
def ofInt? (integer : Int) : Option Binary64 :=
  ofRatio? (decide (integer < 0)) integer.natAbs 1

/-- Positive zero. -/
def zero : Binary64 := ⟨false, 0, -1074, by decide⟩

instance : Inhabited Binary64 := ⟨zero⟩

/-- Zero of either sign. -/
def isZero (x : Binary64) : Bool :=
  x.significand == 0

/-- The numerator of the magnitude, over `denominator`. -/
def numerator (x : Binary64) : Nat :=
  x.significand * Nat.pow 2 x.exponent.toNat

/-- The denominator of the magnitude, a power of two. -/
def denominator (x : Binary64) : Nat :=
  Nat.pow 2 (-x.exponent).toNat

/-- The integer part, towards zero. -/
def truncate (x : Binary64) : Int :=
  let magnitude : Int := (x.numerator / x.denominator : Nat)
  if x.negative then -magnitude else magnitude

/-- The nearest number of the 32-bit format, or nothing if that is not finite. -/
def toSingle? (x : Binary64) : Option Binary64 :=
  let (significand, exponent) := Format.binary32.nearest x.numerator x.denominator
  if Format.binary32.Canonical significand exponent then
    ofRatio? x.negative (significand * Nat.pow 2 exponent.toNat) (Nat.pow 2 (-exponent).toNat)
  else none

/-- The number nearest to `coefficient * 10 ^ exponent`, or nothing if that is not finite.  Beyond
400 places before or after the point the answer no longer depends on the digits. -/
def ofDecimal? (negative : Bool) (coefficient : Nat) (exponent : Int) : Option Binary64 :=
  let places : Int := ((Nat.toDigits 10 coefficient).length : Int) + exponent
  if coefficient = 0 ∨ places < -400 then some { zero with negative := negative }
  else if 400 < places then none
  else ofRatio? negative (coefficient * Nat.pow 10 exponent.toNat) (Nat.pow 10 (-exponent).toNat)

end Binary64
end LiveSchema
