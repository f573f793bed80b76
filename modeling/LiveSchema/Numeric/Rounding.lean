/-!
# Rounding to a binary format

A binary format holds the numbers `m * 2 ^ e` whose significand `m` has at most `precision` bits and
whose exponent `e` is not below `minExponent`.  `Format.nearest` rounds a quotient of natural numbers
to the nearest such number, a tie going to the even significand.  All arithmetic is exact.
-/

namespace LiveSchema

/-- The quotient rounded to the nearest natural number, a half going to the even neighbour. -/
def roundDiv (numerator denominator : Nat) : Nat :=
  let quotient := numerator / denominator
  let doubled := 2 * (numerator % denominator)
  if doubled < denominator then quotient
  else if denominator < doubled then quotient + 1
  else quotient + quotient % 2

/-- A binary floating-point format. -/
structure Format where
  /-- How many bits a significand has at most. -/
  precision : Nat
  /-- The exponent of the least positive number. -/
  minExponent : Int
  /-- The greatest exponent of a finite number. -/
  maxExponent : Int
deriving DecidableEq, Repr

namespace Format

/-- The format of 64 bits. -/
def binary64 : Format := ⟨53, -1074, 971⟩

/-- The format of 32 bits. -/
def binary32 : Format := ⟨24, -149, 104⟩

/-- A significand and an exponent are canonical if the significand fits and cannot be made longer
by a smaller exponent.  Each number of the format has exactly one canonical pair. -/
def Canonical (format : Format) (significand : Nat) (exponent : Int) : Prop :=
  significand < Nat.pow 2 format.precision ∧
    format.minExponent ≤ exponent ∧
    exponent ≤ format.maxExponent ∧
    (Nat.pow 2 (format.precision - 1) ≤ significand ∨ exponent = format.minExponent)

instance (format : Format) (significand : Nat) (exponent : Int) :
    Decidable (format.Canonical significand exponent) :=
  inferInstanceAs (Decidable (_ ∧ _ ∧ _ ∧ (_ ∨ _)))

/-- The quotient `(numerator / denominator) / 2 ^ exponent`, rounded to the nearest natural number. -/
def scaled (numerator denominator : Nat) (exponent : Int) : Nat :=
  roundDiv (numerator * Nat.pow 2 (-exponent).toNat) (denominator * Nat.pow 2 exponent.toNat)

/-- The greatest `k` with `2 ^ k ≤ numerator / denominator`, for positive arguments. -/
def floorLog2 (numerator denominator : Nat) : Int :=
  let estimate : Int := (numerator.log2 : Int) - denominator.log2
  if denominator * Nat.pow 2 estimate.toNat ≤ numerator * Nat.pow 2 (-estimate).toNat then estimate
  else estimate - 1

/-- The significand and exponent nearest to `numerator / denominator`.  The exponent may exceed
`maxExponent`; the number is then too large for the format. -/
def nearest (format : Format) (numerator denominator : Nat) : Nat × Int :=
  if numerator = 0 then (0, format.minExponent)
  else
    let exponent :=
      max (floorLog2 numerator denominator - (format.precision - 1 : Nat)) format.minExponent
    let significand := scaled numerator denominator exponent
    if significand = Nat.pow 2 format.precision then
      (Nat.pow 2 (format.precision - 1), exponent + 1)
    else (significand, exponent)

end Format
end LiveSchema
