import LiveSchema.Proofs.Checks
import LiveSchema.Proofs.Schema.Search

/-!
# Legal field types

The check of a field type decides whether the record, or one that derives from it, would be stored
within itself.  It does so on every registry, also on one that was read from a document in which base
types or fields lead in circles.
-/

namespace LiveSchema
namespace Registry

open Relation

variable {registry : Registry} {record : TypeHandle}

/-- A field of a record can have a type just if the type is legal and by value reaches neither the
record nor anything that derives from it. -/
theorem checkFieldType_iff_not_reaches (registry : Registry) (hrecord : registry.IsRecord record)
    (candidate : TypeReference) :
    Legality.checkFieldType registry record (some candidate) = .ok () ↔
      Legality.checkReference registry candidate = .ok () ∧
        ∀ handle, registry.Extends handle record → ¬ registry.Reaches candidate handle := by
  rw [Legality.checkFieldType_eq_ok, Legality.checkReference_eq_ok, findOpen?_eq_none_iff]
  simp only [mem_family_iff]
  exact and_iff_right hrecord

/-! ## Circles -/

/-- Two structs that derive from each other, and one that holds itself. -/
def circular : Registry :=
  ((((initial.declare (.newRecord .struct "A")).declare (.newRecord .struct "B")).declare
    (.newRecord .struct "C")).setBase ⟨37⟩ (some (.plain ⟨38⟩))).setBase ⟨38⟩
      (some (.plain ⟨37⟩)) |>.modifyFields ⟨39⟩ fun _ => [⟨"own", .plain ⟨39⟩, .empty, ""⟩]

/-- The struct that holds itself holds nothing else. -/
theorem reaches_circular {handle : TypeHandle} (h : circular.Reaches (.plain ⟨39⟩) handle) :
    handle = ⟨39⟩ := by
  obtain ⟨part, hpath, rfl⟩ := h
  suffices hsame : part = .plain ⟨39⟩ by rw [hsame]; rfl
  induction hpath with
  | refl => rfl
  | tail _ hstep ih =>
      subst ih
      cases hstep with
      | argument hargument =>
          obtain ⟨-, index, -, hinner, -⟩ := hargument
          exact absurd hinner (by simp [TypeReference.plain])
      | @field _ field hfield =>
          have hfields : circular.allFields ⟨39⟩ = [⟨"own", .plain ⟨39⟩, .empty, ""⟩] := by
            decide +kernel
          have hmem : field ∈ circular.allFields ⟨39⟩ := hfield
          rw [hfields, List.mem_singleton] at hmem
          rw [hmem]

/-- One of the two structs can have a field of the third type, but not one of the second. -/
theorem checkFieldType_iff_not_reaches_circular :
    Legality.checkFieldType circular ⟨37⟩ (some (.plain ⟨39⟩)) = .ok () ∧
      Legality.checkFieldType circular ⟨37⟩ (some (.plain ⟨38⟩)) ≠ .ok () := by
  have hrecord : circular.IsRecord ⟨37⟩ := ⟨_, rfl, by decide +kernel⟩
  constructor
  · refine (checkFieldType_iff_not_reaches circular hrecord (.plain ⟨39⟩)).mpr
      ⟨by decide +kernel, fun handle hextends hreaches => ?_⟩
    obtain rfl := reaches_circular hreaches
    have hparent := (isParentOf_iff ⟨37⟩ ⟨39⟩).mpr hextends
    exact absurd hparent (by decide +kernel)
  · intro h
    have hfree := ((checkFieldType_iff_not_reaches circular hrecord (.plain ⟨38⟩)).mp h).2
    have hbase : circular.baseOf? ⟨38⟩ = some ⟨37⟩ := by decide +kernel
    exact hfree ⟨38⟩ (.single hbase) ⟨.plain ⟨38⟩, .refl, rfl⟩

end Registry
end LiveSchema
