import LiveSchema.Json.Basic
import LiveSchema.Proofs.Conversion.Builtins
import LiveSchema.Proofs.Json.Integers
import LiveSchema.Proofs.Numeric.Remainders
import Mathlib.Algebra.Order.Field.Power
import Mathlib.Data.Rat.Floor

/-!
# Conversions of floating-point numbers to integers

A number of a floating-point type loses its fraction and becomes an integer of 64 bits; only this
integer goes to the kind, and there it keeps nothing but its remainder.  So a number is limited to the
range of the kind just if the integer of 64 bits happens to have the remainder of the limit.

Every number of a document denotes a rational number exactly, and its integer part is the one of this
rational number, towards zero.
-/

namespace LiveSchema

/-! ## Numbers as rationals -/

/-- The integer part of a rational number, towards zero. -/
def towardsZero (q : ℚ) : ℤ :=
  if 0 ≤ q then ⌊q⌋ else ⌈q⌉

theorem towardsZero_intCast (n : ℤ) : towardsZero n = n := by
  unfold towardsZero
  split
  · exact Int.floor_intCast n
  · exact Int.ceil_intCast n

theorem towardsZero_of_nonneg {q : ℚ} (h : 0 ≤ q) : towardsZero q = ⌊q⌋ :=
  if_pos h

theorem towardsZero_neg_of_nonneg {q : ℚ} (h : 0 ≤ q) : towardsZero (-q) = -⌊q⌋ := by
  rcases h.eq_or_lt with rfl | hpos
  · rfl
  · rw [towardsZero, if_neg (by simpa using hpos), Int.ceil_neg]

namespace Binary64

/-- The rational number `± significand * 2 ^ exponent`. -/
def toRat (x : Binary64) : ℚ :=
  let magnitude : ℚ := x.significand * 2 ^ x.exponent
  if x.negative then -magnitude else magnitude

/-- The numerator over the denominator is the magnitude. -/
theorem numerator_div_denominator (x : Binary64) :
    (x.numerator : ℚ) / x.denominator = x.significand * 2 ^ x.exponent := by
  have hexponent : x.exponent = x.exponent.toNat - (-x.exponent).toNat := by omega
  have hpower : (2 : ℚ) ^ x.exponent = 2 ^ x.exponent.toNat / 2 ^ (-x.exponent).toNat := by
    conv_lhs => rw [hexponent, zpow_sub₀ two_ne_zero, zpow_natCast, zpow_natCast]
  rw [hpower, ← mul_div_assoc]
  simp [numerator, denominator]

/-- The integer part is the one of the rational number. -/
theorem truncate_eq (x : Binary64) : x.truncate = towardsZero x.toRat := by
  have hnonneg : (0 : ℚ) ≤ x.significand * 2 ^ x.exponent := by positivity
  have hfloor : ⌊(x.significand * 2 ^ x.exponent : ℚ)⌋ = (x.numerator / x.denominator : Nat) := by
    rw [← numerator_div_denominator, Rat.floor_natCast_div_natCast]
    push_cast
    rfl
  rw [truncate, toRat, ← hfloor]
  cases x.negative with
  | false => exact (towardsZero_of_nonneg hnonneg).symm
  | true => exact (towardsZero_neg_of_nonneg hnonneg).symm

end Binary64

namespace Number

/-- The rational number that a number of a document denotes. -/
def toRat : Number → ℚ
  | .integer value _ => value
  | .float x => x.toRat

end Number

/-! ## Kinds of 64 bits -/

namespace IntegerKind

/-- The kind of 64 bits by way of which numbers come to a kind. -/
def widest (kind : IntegerKind) : IntegerKind :=
  ⟨kind.signed, .w64⟩

variable {kind : IntegerKind}

theorem least_widest_le (kind : IntegerKind) : kind.widest.least ≤ kind.least := by
  obtain ⟨signed, width⟩ := kind
  cases signed <;> cases width <;> decide

theorem greatest_le_widest (kind : IntegerKind) : kind.greatest ≤ kind.widest.greatest := by
  obtain ⟨signed, width⟩ := kind
  cases signed <;> cases width <;> decide

/-- If the limited integer of 64 bits fits into a kind, the limits of the kind give the same. -/
theorem clamp_eq_of_holds_widest {n : Int} (h : kind.holds (kind.widest.clamp n) = true) :
    kind.clamp n = kind.widest.clamp n := by
  obtain ⟨hlow, hhigh⟩ := holds_iff.mp h
  have hleast := kind.least_widest_le
  have hgreatest := kind.greatest_le_widest
  simp only [clamp] at hlow hhigh ⊢
  omega

end IntegerKind

namespace Number

/-- The integer of 64 bits by way of which a number comes to a kind: a floating-point number loses its
fraction and is limited, and an integer is what it is. -/
def toInt64 (kind : IntegerKind) : Number → Int
  | .integer value _ => value
  | .float x => kind.widest.clamp (towardsZero x.toRat)

theorem toInt64_ofJson (kind : IntegerKind) (number : Number) :
    (Scalar.ofJson (.number number)).toInt64 kind = number.toInt64 kind := by
  cases number with
  | integer value fits => rfl
  | float x =>
      change IntegerKind.clamp kind.widest x.truncate = _
      rw [x.truncate_eq, toInt64]

/-- A number whose integer of 64 bits fits into a kind is limited to its range. -/
theorem clamp_eq_toInt64 {kind : IntegerKind} {number : Number}
    (h : kind.holds (number.toInt64 kind) = true) :
    kind.clamp (towardsZero number.toRat) = number.toInt64 kind := by
  cases number with
  | integer value fits =>
      rw [toRat, towardsZero_intCast]
      exact IntegerKind.clamp_of_holds h
  | float x => exact IntegerKind.clamp_eq_of_holds_widest h

end Number

namespace Registry
namespace HasBuiltins

variable {registry : Registry}

/-- The values of a floating-point type are the numbers. -/
theorem conforms_floating_iff (h : registry.HasBuiltins) {width : FloatKind} {value : Json} :
    registry.conforms (Builtin.floating width).reference value = true ↔
      ∃ number, value = .number number := by
  rw [conforms_simple_iff (h (.floating width)) (Or.inl rfl)]
  change value.isNumber = true ↔ _
  constructor
  · intro hnumber
    unfold Json.isNumber at hnumber
    split at hnumber
    next number => exact ⟨number, rfl⟩
    next => exact absurd hnumber (by simp)
  · rintro ⟨number, rfl⟩
    rfl

theorem convert_number (h : registry.HasBuiltins) (width : FloatKind) (kind : IntegerKind)
    (number : Number) :
    registry.convert (Builtin.floating width).reference (Builtin.integral kind).reference
      (.number number) = .ofInt (kind.wrap (number.toInt64 kind)) := by
  have hcast : conversion? (.floating width) (.integral kind) = some .cast := rfl
  rw [h.convert_eq hcast, Conversion.apply, Scalar.toJson, Scalar.toInteger, Number.toInt64_ofJson]

/-- A value of a floating-point type becomes the remainder of its integer of 64 bits.  This is the
integer part of the number, limited to the range of the kind, whenever the integer of 64 bits is of the
kind; in general it is so just if this integer has the remainder of the limited one. -/
theorem convert_floating (h : registry.HasBuiltins) (width : FloatKind) (kind : IntegerKind)
    {value : Json}
    (hvalue : registry.conforms (Builtin.floating width).reference value = true) :
    ∃ number : Number, value = .number number ∧
      let source := (Builtin.floating width).reference
      let target := (Builtin.integral kind).reference
      let held := number.toInt64 kind
      let limited := kind.clamp (towardsZero number.toRat)
      registry.convert source target value = .ofInt (kind.wrap held) ∧
        (kind.holds held = true → registry.convert source target value = .ofInt limited) ∧
        (registry.convert source target value = .ofInt limited ↔
          held ≡ limited [ZMOD 2 ^ kind.width.bits]) := by
  obtain ⟨number, rfl⟩ := h.conforms_floating_iff.mp hvalue
  refine ⟨number, rfl, ?_⟩
  intro source target held limited
  have hconverted : registry.convert source target (.number number) = .ofInt (kind.wrap held) :=
    h.convert_number width kind number
  refine ⟨hconverted, fun hholds => ?_, ?_⟩
  · have hlimited : limited = held := Number.clamp_eq_toInt64 hholds
    rw [hconverted, hlimited, IntegerKind.wrap_of_holds hholds]
  · rw [hconverted, ← IntegerKind.wrap_eq_clamp_iff]
    exact Json.ofInt_inj (IntegerKind.isDocumentInteger_of_holds (kind.holds_wrap held))
      (IntegerKind.isDocumentInteger_of_holds (kind.holds_clamp _))

/-- Among the integers of eight bits without a sign, 300 becomes 44 and not the greatest one. -/
theorem convert_floating_beyond_limit :
    let x : Binary64 := ⟨false, 300 * 2 ^ 44, -44, by decide⟩
    let source := (Builtin.floating .double).reference
    let target := (Builtin.integral ⟨false, .w8⟩).reference
    initial.convert source target (.ofFloat x) = .ofInt 44 ∧
      IntegerKind.clamp ⟨false, .w8⟩ (towardsZero x.toRat) = 255 := by
  intro x source target
  have hbuiltins : initial.HasBuiltins := formed_initial.hasBuiltins
  have hrational : towardsZero x.toRat = 300 := by
    rw [← x.truncate_eq]
    decide
  have hvalue : initial.conforms source (.ofFloat x) = true :=
    hbuiltins.conforms_floating_iff.mpr ⟨.float x, rfl⟩
  obtain ⟨number, hnumber, hconverted, -⟩ :=
    hbuiltins.convert_floating .double ⟨false, .w8⟩ hvalue
  obtain rfl : .float x = number := Json.number.inj hnumber
  refine ⟨?_, by rw [hrational]; decide⟩
  rw [Number.toInt64, hrational] at hconverted
  exact hconverted

end HasBuiltins
end Registry
end LiveSchema
