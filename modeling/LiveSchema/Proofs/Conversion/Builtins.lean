import LiveSchema.Proofs.Schema.Formed
import LiveSchema.Value.Conversion

/-!
# The places of the built-in types

The built-in types have the same places in every registry.  What a conversion between two of them makes
of a value does not depend on the registry.
-/

namespace LiveSchema

namespace Builtin

theorem mem_all (builtin : Builtin) : builtin ∈ all := by
  cases builtin with
  | floating kind => cases kind <;> decide
  | integral kind =>
      obtain ⟨signed, width⟩ := kind
      cases signed <;> cases width <;> decide
  | vector component size => cases component <;> cases size <;> decide
  | _ => decide

/-- The place of a built-in type, the same in every registry. -/
def place (builtin : Builtin) : TypeHandle :=
  ⟨all.idxOf builtin⟩

/-- A built-in type without arguments. -/
def reference (builtin : Builtin) : TypeReference :=
  .plain builtin.place

theorem all_place (builtin : Builtin) : all[builtin.place.index]? = some builtin :=
  List.getElem?_idxOf builtin.mem_all

theorem reference_inj {a b : Builtin} : a.reference = b.reference ↔ a = b := by
  refine ⟨fun h => ?_, congrArg reference⟩
  have hplace : a.place = b.place := congrArg TypeReference.handle h
  have hfound := all_place a
  rw [hplace, all_place b] at hfound
  exact (Option.some.inj hfound).symm

end Builtin

/-- No type is converted to itself. -/
theorem ne_of_conversion? {source target : Builtin} {conversion : Conversion}
    (h : conversion? source target = some conversion) : source ≠ target := by
  rintro rfl
  unfold conversion? at h
  split at h
  next => simp at h
  next hscalar =>
      split at h
      next htext => exact hscalar htext.2
      next => exact absurd h (by simp)

namespace Registry

variable {registry : Registry}

/-- Every built-in type is at its place. -/
def HasBuiltins (registry : Registry) : Prop :=
  ∀ builtin : Builtin, registry.builtin? builtin.place = some builtin

theorem Formed.hasBuiltins (hformed : registry.Formed) : registry.HasBuiltins :=
  fun builtin => hformed.builtin?_iff.mpr builtin.all_place

/-- Between built-in types a value is converted as the two types ask for. -/
theorem HasBuiltins.convert_eq (h : registry.HasBuiltins) {source target : Builtin}
    {conversion : Conversion} (hconversion : conversion? source target = some conversion)
    (value : Json) :
    registry.convert source.reference target.reference value = conversion.apply target value := by
  have hne : source.reference ≠ target.reference :=
    mt Builtin.reference_inj.mp (ne_of_conversion? hconversion)
  have hsource : registry.builtin? source.reference.handle = some source := h source
  have htarget : registry.builtin? target.reference.handle = some target := h target
  have hbetween : registry.conversionBetween? source.reference target.reference =
      some (conversion, target) := by
    simp [conversionBetween?, hsource, htarget, hconversion]
  simp only [convert, if_neg hne, hbetween]

end Registry
end LiveSchema
