import LiveSchema.Proofs.Mutation.Losing
import LiveSchema.Proofs.Mutation.Steps

/-!
# Taking over the fields of the base type

Of all checks that this change makes, only those of the flags can fail: what the base type hands on is
legal below it.  And it changes only where the fields are declared.
-/

namespace LiveSchema
namespace Content

open Registry

variable {content : Content} {record base : TypeHandle} {change : Change}

/-- The own fields of a base type are those of its record. -/
theorem exists_base (hwf : content.registry.WellFormed)
    (hbase : content.registry.DerivesFrom record base) :
    ∃ definition held, content.registry.get? base = some definition ∧
      definition.body = .record held ∧ definition.fields = held.fields ∧
      content.registry.ownFields base = held.fields := by
  obtain ⟨-, definition, -, hfound, -, hrecord, -⟩ := hwf.record_of_baseOf? hbase
  obtain ⟨held, hbody⟩ := TypeDefinition.isRecord_iff.mp hrecord
  have hfields : definition.fields = held.fields := by simp [TypeDefinition.fields, hbody]
  exact ⟨definition, held, hfound, hbody, hfields, (ownFields_of_get? hfound).trans hfields⟩

/-- A record can take over the fields of its base type just if their flags are legal on it. -/
theorem exists_flattenBase_iff (hwf : content.registry.WellFormed)
    (hbase : content.registry.DerivesFrom record base) :
    (∃ change, content.flattenBase record = .ok change) ↔
      ∀ own ∈ content.registry.ownFields base,
        Legality.checkFieldFlags content.registry record own.type own.flags = .ok () := by
  obtain ⟨definition, held, hfound, hbody, -, hown⟩ := exists_base hwf hbase
  rw [hown]
  constructor
  · rintro ⟨change, h⟩
    obtain ⟨found, other, ofBase, -, hparent, hget, hother, hflags, -⟩ := flattenBase_checked h
    obtain rfl := Option.some.inj (hbase.symm.trans hparent)
    obtain rfl := Option.some.inj (hfound.symm.trans hget)
    obtain rfl := TypeBody.record.inj (hbody.symm.trans hother)
    exact forM_eq_ok.mp hflags
  · intro hflags
    obtain ⟨recordDefinition, -, hget, -, hisRecord, -⟩ := hwf.record_of_baseOf? hbase
    have hofBase : definition.record? = some held := by simp [TypeDefinition.record?, hbody]
    have hparent : content.registry.baseOf? record = some base := hbase
    have hchecks : (held.fields.forM fun field =>
        Legality.checkFieldFlags content.registry record field.type field.flags) = .ok () :=
      forM_eq_ok.mpr hflags
    unfold flattenBase
    simp only [Legality.checkRecord_eq_ok.mpr ⟨hget, hisRecord⟩, hparent,
      Legality.definitionOf_eq_ok.mpr hfound, hwf.checkBase_of_base hbase hfound, hofBase, bind,
      Except.bind]
    rw [hchecks]
    exact ⟨_, rfl⟩

/-- Taking over the fields of the base type leaves the effective fields of all types, all other types
and all stored values as they are. -/
theorem flattenBase_effect (hwf : content.registry.WellFormed) (hconforms : content.Conforms)
    (hbase : content.registry.DerivesFrom record base)
    (h : content.flattenBase record = .ok change) :
    (∀ handle, change.content.registry.allFields handle = content.registry.allFields handle) ∧
      (∀ handle, handle ≠ record →
        change.content.registry.get? handle = content.registry.get? handle) ∧
      change.content.registry.baseOf? record = content.registry.baseOf? base ∧
      Stores.Same change.content.stores content.stores := by
  obtain ⟨found, definition, ofBase, after, hparent, hfound, hbody, -, hafter, hcontent⟩ :=
    flattenBase_checked h
  obtain rfl := Option.some.inj (hbase.symm.trans hparent)
  obtain ⟨d, -, hd, -, hisRecord, -⟩ := hwf.record_of_baseOf? hbase
  have hfields : definition.fields = ofBase.fields := by simp [TypeDefinition.fields, hbody]
  have hflatten :
      after = content.registry.flatten record definition.fields definition.base := by
    rw [hafter, hfields, Registry.flatten]
  rw [hcontent]
  refine ⟨fun handle => ?_, fun handle hne => ?_, ?_, ?_⟩
  · rw [hflatten, hwf.allFields_flatten hbase hfound]
  · rw [hflatten, flatten_eq_modify, get?_modify_of_ne _ hne]
  · rw [hflatten, baseOf?_flatten _ _ ⟨d, hd, hisRecord⟩, baseOf?_of_get? hfound]
  · -- no field is lost, so it does not matter which
    have hlost := hwf.fieldLost_flatten hbase hfound hflatten ⟨"", .plain void, .empty, ""⟩
    exact hlost.conformRecords_same ⟨d, hd, hisRecord⟩ hconforms

end Content
end LiveSchema
