import LiveSchema.Proofs.Conversion.Builtins
import LiveSchema.Proofs.Json.Integers
import LiveSchema.Proofs.Numeric.DecimalIntegers
import LiveSchema.Proofs.Numeric.Remainders

/-!
# Conversions of integers

Between kinds of integers a conversion keeps the remainder, directly and through the decimal text.  So
an integer that goes to a kind that is as wide, or to a text, comes back as it was.
-/

namespace LiveSchema

namespace Scalar

theorem ofJson_ofInt {n : Int} (h : IsDocumentInteger n) : ofJson (.ofInt n) = .integer n := by
  rw [Json.ofInt_eq h, ofJson]

end Scalar

namespace Registry
namespace HasBuiltins

variable {registry : Registry} {source : IntegerKind} {n : Int}

/-- The values of a kind of integers are its integers. -/
theorem conforms_integral_iff (h : registry.HasBuiltins) {kind : IntegerKind} {value : Json} :
    registry.conforms (Builtin.integral kind).reference value = true ↔
      ∃ n, kind.holds n = true ∧ value = .ofInt n := by
  rw [conforms_simple_iff (h (.integral kind)) (Or.inl rfl)]
  change kind.accepts value = true ↔ _
  constructor
  · intro haccepts
    unfold IntegerKind.accepts at haccepts
    split at haccepts
    next n hfits => exact ⟨n, haccepts, (Json.ofInt_eq hfits).symm⟩
    next => exact absurd haccepts (by simp)
  · rintro ⟨n, hn, rfl⟩
    exact IntegerKind.accepts_ofInt hn

theorem convert_integral (h : registry.HasBuiltins) (hn : source.holds n = true)
    (target : IntegerKind) :
    registry.convert (Builtin.integral source).reference (Builtin.integral target).reference
      (.ofInt n) = .ofInt (target.wrap n) := by
  by_cases hsame : source = target
  · subst hsame
    rw [convert, if_pos rfl, IntegerKind.wrap_of_holds hn]
  · have hcast : conversion? (.integral source) (.integral target) = some .cast := by
      simp [conversion?, Builtin.isScalar, Builtin.isNumeric, Builtin.isIntegral, hsame]
    rw [h.convert_eq hcast, Conversion.apply,
      Scalar.ofJson_ofInt (IntegerKind.isDocumentInteger_of_holds hn)]
    rfl

theorem convert_integral_string (h : registry.HasBuiltins) (hn : source.holds n = true) :
    registry.convert (Builtin.integral source).reference Builtin.string.reference (.ofInt n) =
      .string (toString n) := by
  rw [h.convert_eq (show conversion? (.integral source) .string = some .toText from rfl),
    Conversion.apply, Scalar.ofJson_ofInt (IntegerKind.isDocumentInteger_of_holds hn),
    Scalar.render_integer]

theorem convert_string_integral (h : registry.HasBuiltins) (hn : source.holds n = true)
    (target : IntegerKind) :
    registry.convert Builtin.string.reference (Builtin.integral target).reference
      (.string (toString n)) = .ofInt (target.wrap n) := by
  rw [h.convert_eq (show conversion? .string (.integral target) = some .ofText from rfl),
    Conversion.apply,
    Scalar.ofText_toString (IntegerKind.isDocumentInteger_of_holds hn) (by simp)]
  rfl

/-- A value of a kind of integers is one of its integers.  It becomes the only integer of another kind
that has the same remainder, and its decimal text, from which it becomes the same integer again.  Back
from a kind that is as wide, and from its text, it is what it was. -/
theorem convert_integer (h : registry.HasBuiltins) (a b : IntegerKind) {value : Json}
    (hvalue : registry.conforms (Builtin.integral a).reference value = true) :
    let source := (Builtin.integral a).reference
    let target := (Builtin.integral b).reference
    let text := Builtin.string.reference
    ∃ n m : Int, value = .ofInt n ∧ a.holds n = true ∧
      registry.convert source target value = .ofInt m ∧
      (∀ k, k = m ↔ b.holds k = true ∧ k ≡ n [ZMOD 2 ^ b.width.bits]) ∧
      registry.convert source text value = .string (toString n) ∧
      registry.convert text target (registry.convert source text value) =
        registry.convert source target value ∧
      (a.width.bits ≤ b.width.bits →
        registry.convert target source (registry.convert source target value) = value) ∧
      registry.convert text source (registry.convert source text value) = value := by
  intro source target text
  obtain ⟨n, hn, rfl⟩ := h.conforms_integral_iff.mp hvalue
  have hdirect : registry.convert source target (.ofInt n) = .ofInt (b.wrap n) :=
    h.convert_integral hn b
  have htext : registry.convert source text (.ofInt n) = .string (toString n) :=
    h.convert_integral_string hn
  refine ⟨n, b.wrap n, rfl, hn, hdirect, fun k => IntegerKind.eq_wrap_iff, htext, ?_, ?_, ?_⟩
  · rw [htext, hdirect]
    exact h.convert_string_integral hn b
  · intro hwidth
    calc registry.convert target source (registry.convert source target (.ofInt n))
        = registry.convert target source (.ofInt (b.wrap n)) := by rw [hdirect]
      _ = .ofInt (a.wrap (b.wrap n)) := h.convert_integral (b.holds_wrap n) a
      _ = .ofInt n := by rw [IntegerKind.wrap_wrap hwidth, IntegerKind.wrap_of_holds hn]
  · rw [htext]
    exact (h.convert_string_integral hn a).trans (by rw [IntegerKind.wrap_of_holds hn])

/-- The greatest integer of 64 bits without a sign becomes minus one, also by way of its text, and
comes back from there. -/
theorem convert_integer_greatest :
    let source := (Builtin.integral ⟨false, .w64⟩).reference
    let target := (Builtin.integral ⟨true, .w64⟩).reference
    let text := Builtin.string.reference
    let value : Json := .ofInt 0xffffffffffffffff
    initial.convert source target value = .ofInt (-1) ∧
      initial.convert text target (initial.convert source text value) = .ofInt (-1) ∧
      initial.convert target source (.ofInt (-1)) = value := by
  intro source target text value
  have hbuiltins : initial.HasBuiltins := formed_initial.hasBuiltins
  have hvalue : initial.conforms source value = true :=
    hbuiltins.conforms_integral_iff.mpr ⟨0xffffffffffffffff, by decide, rfl⟩
  obtain ⟨n, m, hn, hholds, hdirect, honly, -, hthrough, hback, -⟩ :=
    hbuiltins.convert_integer ⟨false, .w64⟩ ⟨true, .w64⟩ hvalue
  have hsame : 0xffffffffffffffff = n :=
    (Json.ofInt_inj (by decide) (IntegerKind.isDocumentInteger_of_holds hholds)).mp hn
  have hminus : -1 = m := (honly (-1)).mpr ⟨by decide, by rw [← hsame]; decide⟩
  rw [← hminus] at hdirect
  exact ⟨hdirect, hthrough.trans hdirect, hdirect ▸ hback (by decide)⟩

end HasBuiltins
end Registry
end LiveSchema
