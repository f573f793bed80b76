import LiveSchema.Proofs.Value.Conformance
import Mathlib.Algebra.Order.Group.Unbundled.Int
import Mathlib.Data.Int.ModEq

/-!
# Integers of a kind as remainders

The range of a kind of integers has exactly one integer for each remainder.  `IntegerKind.wrap` answers
this one, and `IntegerKind.clamp` the integer of the range that is nearest.
-/

namespace LiveSchema
namespace IntegerKind

variable {kind wide : IntegerKind} {m n : Int}

theorem holds_iff : kind.holds n = true ↔ kind.least ≤ n ∧ n ≤ kind.greatest := by
  simp [holds]

/-- The range of a kind has as many integers as there are remainders. -/
theorem greatest_sub_least (kind : IntegerKind) :
    kind.greatest - kind.least = 2 ^ kind.width.bits - 1 := by
  obtain ⟨signed, width⟩ := kind
  cases signed <;> cases width <;> rfl

/-! ## Remainders -/

theorem wrap_modEq (kind : IntegerKind) (n : Int) :
    kind.wrap n ≡ n [ZMOD 2 ^ kind.width.bits] := by
  have hcount : ((Nat.pow 2 kind.width.bits : Nat) : Int) = 2 ^ kind.width.bits := by
    exact_mod_cast rfl
  rw [wrap, Int.ModEq, ← hcount]
  split
  · exact Int.bmod_emod
  · exact Int.emod_emod_of_dvd n (Int.dvd_refl _)

/-- No two integers of a kind have the same remainder. -/
theorem eq_of_modEq (hm : kind.holds m = true) (hn : kind.holds n = true)
    (h : m ≡ n [ZMOD 2 ^ kind.width.bits]) : m = n := by
  obtain ⟨hmLow, hmHigh⟩ := holds_iff.mp hm
  obtain ⟨hnLow, hnHigh⟩ := holds_iff.mp hn
  have hrange := greatest_sub_least kind
  have hsmall : |n - m| < 2 ^ kind.width.bits := abs_lt.mpr ⟨by omega, by omega⟩
  have hzero := Int.eq_zero_of_abs_lt_dvd h.dvd hsmall
  omega

/-- The integer of a kind with a given remainder. -/
theorem eq_wrap_iff :
    m = kind.wrap n ↔ kind.holds m = true ∧ m ≡ n [ZMOD 2 ^ kind.width.bits] := by
  constructor
  · rintro rfl
    exact ⟨kind.holds_wrap n, kind.wrap_modEq n⟩
  · rintro ⟨hm, hmod⟩
    exact eq_of_modEq hm (kind.holds_wrap n) (hmod.trans (kind.wrap_modEq n).symm)

/-- An integer of the kind stands for itself. -/
theorem wrap_of_holds (h : kind.holds n = true) : kind.wrap n = n :=
  (eq_wrap_iff.mpr ⟨h, .refl n⟩).symm

/-- Going through a kind that is as wide loses nothing. -/
theorem wrap_wrap (h : kind.width.bits ≤ wide.width.bits) (n : Int) :
    kind.wrap (wide.wrap n) = kind.wrap n := by
  refine eq_wrap_iff.mpr ⟨kind.holds_wrap _, (kind.wrap_modEq _).trans ?_⟩
  exact (wide.wrap_modEq n).of_dvd (pow_dvd_pow 2 h)

/-! ## Limits -/

theorem least_le_greatest (kind : IntegerKind) : kind.least ≤ kind.greatest := by
  obtain ⟨signed, width⟩ := kind
  cases signed <;> cases width <;> decide

theorem holds_clamp (kind : IntegerKind) (n : Int) : kind.holds (kind.clamp n) = true := by
  have hrange := kind.least_le_greatest
  rw [holds_iff, clamp]
  omega

theorem clamp_of_holds (h : kind.holds n = true) : kind.clamp n = n := by
  obtain ⟨hlow, hhigh⟩ := holds_iff.mp h
  rw [clamp]
  omega

/-- The remainder of an integer is the nearest integer of the kind just if both have the same
remainder. -/
theorem wrap_eq_clamp_iff :
    kind.wrap m = kind.clamp n ↔ m ≡ kind.clamp n [ZMOD 2 ^ kind.width.bits] := by
  rw [eq_comm, eq_wrap_iff, Int.modEq_comm]
  exact and_iff_right (kind.holds_clamp n)

end IntegerKind
end LiveSchema
