import LiveSchema.Numeric.Binary64

/-!
# Shortest decimals

`Binary64.shortest` finds the decimal with the fewest digits that still reads back as the number; of
several such decimals it takes the one nearest to the number.  Reading back means lying between the
midpoints to the two neighbours of the number, the midpoints themselves belonging to it if its
significand is even.
-/

namespace LiveSchema

/-- The number `coefficient * 10 ^ exponent`. -/
structure Decimal where
  coefficient : Nat
  exponent : Int
deriving DecidableEq, Repr

namespace Decimal

/-- The decimal without the zeros at its end; at most `steps` of them are taken off. -/
def stripZeros : Nat → Decimal → Decimal
  | 0, d => d
  | steps + 1, d =>
    if d.coefficient ≠ 0 ∧ d.coefficient % 10 = 0 then
      stripZeros steps ⟨d.coefficient / 10, d.exponent + 1⟩
    else d

/-- The digits of the coefficient, most significant first. -/
def digits (d : Decimal) : List Char :=
  Nat.toDigits 10 d.coefficient

/-- The power of ten of the first digit. -/
def leadingExponent (d : Decimal) : Int :=
  d.exponent + d.digits.length - 1

end Decimal

/-- Which of two equally near decimals is taken. -/
inductive Tie where
  | even
  | up
deriving DecidableEq, Repr

namespace Binary64

/-- The numbers that read back as `x`, in units of `2 ^ (x.exponent - 2)`. -/
structure Interval where
  lower : Nat
  upper : Nat
  closed : Bool

/-- The interval of numbers that read back as `x`.  Below a power of two the neighbour is only half
as far away. -/
def interval (x : Binary64) : Interval where
  lower :=
    if x.significand = 0x10000000000000 ∧ x.exponent ≠ -1074 then 4 * x.significand - 1
    else 4 * x.significand - 2
  upper := 4 * x.significand + 2
  closed := x.significand % 2 == 0

/-- Whether `coefficient * 10 ^ exponent` reads back as `x`. -/
def readsBack (x : Binary64) (coefficient : Nat) (exponent : Int) : Bool :=
  let unit := x.exponent - 2
  let left := coefficient * Nat.pow 10 exponent.toNat * Nat.pow 2 (-unit).toNat
  let scale := Nat.pow 10 (-exponent).toNat * Nat.pow 2 unit.toNat
  let between := x.interval
  if between.closed then between.lower * scale ≤ left && left ≤ between.upper * scale
  else between.lower * scale < left && left < between.upper * scale

/-- The power of ten of the first decimal digit of a number other than zero. -/
def leadingExponent (x : Binary64) : Int :=
  let below : Int := (Nat.toDigits 10 (x.numerator / x.denominator)).length - 1
  if x.denominator ≤ x.numerator then below
  else
    -- the inverse of a small number shows how many places follow the point
    let inverse := (Nat.toDigits 10 (x.denominator / x.numerator)).length
    if x.denominator ≤ x.numerator * Nat.pow 10 (inverse - 1) then -((inverse - 1 : Nat) : Int)
    else -(inverse : Int)

/-- The best decimal on the grid of multiples of `10 ^ exponent`, if one reads back. -/
def onGrid? (x : Binary64) (tie : Tie) (exponent : Int) : Option Decimal :=
  let left := x.numerator * Nat.pow 10 (-exponent).toNat
  let right := x.denominator * Nat.pow 10 exponent.toNat
  let below := left / right
  let remainder := left % right
  match x.readsBack below exponent, x.readsBack (below + 1) exponent with
  | true, false => some ⟨below, exponent⟩
  | false, true => some ⟨below + 1, exponent⟩
  | false, false => none
  | true, true =>
    if 2 * remainder < right then some ⟨below, exponent⟩
    else if right < 2 * remainder then some ⟨below + 1, exponent⟩
    else
      match tie with
      | .even => some ⟨below + below % 2, exponent⟩
      | .up => some ⟨below + 1, exponent⟩

/-- The shortest decimal that reads back as the magnitude of `x`.  Seventeen digits always do. -/
def shortest (x : Binary64) (tie : Tie) : Decimal :=
  if x.isZero then ⟨0, 0⟩
  else
    let grids := (List.range 17).map fun (places : Nat) => x.leadingExponent - (places : Int)
    ((grids.findSome? (x.onGrid? tie)).getD ⟨x.numerator / x.denominator, 0⟩).stripZeros 400

end Binary64
end LiveSchema
