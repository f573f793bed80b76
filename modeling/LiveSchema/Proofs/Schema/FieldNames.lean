import LiveSchema.Mutation.Fields
import LiveSchema.Proofs.FreshNames
import LiveSchema.Proofs.Schema.WellFormed

/-!
# Free field names

A field name that passes its check is free in every record of the family: all of them extend the
record, so whatever they inherit is declared by an ancestor of the record or by one of its
descendants.  The name that a new field gets passes the check.
-/

namespace LiveSchema
namespace Registry

open Relation

variable {registry : Registry} {record handle : TypeHandle}

/-- A field of the given name that is effective in the family of the record is the one to be
renamed. -/
theorem WellFormed.eq_current_of_checkFieldName (hwf : registry.WellFormed)
    {current : Option String} {name : String}
    (hcheck : Legality.checkFieldName registry record current name = .ok ())
    (hextends : registry.Extends handle record) {field : Field}
    (hfield : field ∈ registry.allFields handle) (hname : field.name = name) :
    current = some name := by
  obtain ⟨-, -, hconflict, hdescendant⟩ := Legality.checkFieldName_eq_ok.mp hcheck
  obtain ⟨owner, howner, hmem⟩ := (mem_allFields_iff hwf.inheritance).mp hfield
  -- the owner and the record are both ancestors of the type
  rcases Extends.total hextends howner with habove | hbelow
  · have howned : OwnedField.mk owner field ∈ registry.ownedFields record :=
      (mem_ownedFields_iff hwf.inheritance).mpr ⟨habove, hmem⟩
    have hnone := List.find?_eq_none.mp hconflict _ howned
    simp only [hname, decide_true, Bool.true_and, Bool.not_eq_true, Bool.not_eq_false',
      Bool.and_eq_true, decide_eq_true_eq] at hnone
    exact hnone.2.symm
  · by_cases hsame : owner = record
    · subst hsame
      have howned : OwnedField.mk owner field ∈ registry.ownedFields owner :=
        (mem_ownedFields_iff hwf.inheritance).mpr ⟨.refl, hmem⟩
      have hnone := List.find?_eq_none.mp hconflict _ howned
      simp only [hname, decide_true, Bool.true_and, Bool.not_eq_true, Bool.not_eq_false',
        decide_eq_true_eq] at hnone
      exact hnone.symm
    · have hin : owner ∈ registry.descendants record :=
        ((List.mem_cons.mp ((mem_family_iff record owner).mpr hbelow))).resolve_left
          hsame
      have hnone := List.find?_eq_none.mp hdescendant owner hin
      rw [List.any_eq_true] at hnone
      exact absurd ⟨field, hmem, by simpa using hname⟩ hnone

/-- A new field name that passes the check is not among the effective names of the family. -/
theorem WellFormed.not_mem_of_checkFieldName (hwf : registry.WellFormed) {name : String}
    (hcheck : Legality.checkFieldName registry record none name = .ok ())
    (hextends : registry.Extends handle record) : name ∉ registry.allFieldNames handle := by
  intro hmem
  obtain ⟨field, hfield, hname⟩ := List.mem_map.mp hmem
  exact absurd (hwf.eq_current_of_checkFieldName hcheck hextends hfield hname) (by simp)

theorem isStem_field : Legality.IsStem "field" :=
  ⟨'f', ['i', 'e', 'l', 'd'], by decide, by decide, by decide, by decide⟩

/-- The search for the name of a new field ends. -/
theorem finds_freshFieldName (hrecord : registry.IsRecord record) :
    Finds (fun name => (Legality.checkFieldName registry record none name).toBool = false) "field" 1
      (Content.freshFieldName registry record) := by
  refine finds_freshName_of_check isStem_field
    ((registry.ownedFields record).map (fun owned => owned.field.name) ++
      ((registry.descendants record).flatMap registry.ownFields).map Field.name)
    (fun name hidentifier hfree => ?_) (by simp [Content.fieldCount])
  rw [List.mem_append, not_or] at hfree
  refine Legality.checkFieldName_eq_ok.mpr ⟨hrecord, hidentifier, ?_, ?_⟩
  · refine List.find?_eq_none.mpr fun owned howned hsame => hfree.1 ?_
    exact List.mem_map.mpr ⟨owned, howned, by simpa using hsame⟩
  · refine List.find?_eq_none.mpr fun descendant hdescendant hsame => hfree.2 ?_
    obtain ⟨field, hfield, hname⟩ := List.any_eq_true.mp hsame
    exact List.mem_map.mpr ⟨field, List.mem_flatMap.mpr ⟨descendant, hdescendant, hfield⟩,
      by simpa using hname⟩

/-- The first field of a family gets the first name. -/
theorem freshFieldName_of_no_fields (hrecord : registry.IsRecord record)
    (hfields : registry.ownedFields record = [])
    (hbelow : ∀ descendant ∈ registry.descendants record, registry.ownFields descendant = []) :
    Content.freshFieldName registry record = "field1" := by
  have hcheck : Legality.checkFieldName registry record none ("field" ++ Nat.repr 1) = .ok () := by
    refine Legality.checkFieldName_eq_ok.mpr
      ⟨hrecord, Legality.isIdentifier_numbered isStem_field 1, ?_, ?_⟩
    · rw [Legality.conflictingField?, hfields, List.find?_nil]
    · refine List.find?_eq_none.mpr fun descendant hdescendant => ?_
      simp [hbelow descendant hdescendant]
  refine (finds_freshFieldName hrecord).unique (.free (decide_eq_false ?_))
  rw [hcheck]
  decide

/-- The name of a new field passes the check. -/
theorem checkFieldName_freshFieldName (hrecord : registry.IsRecord record) :
    Legality.checkFieldName registry record none (Content.freshFieldName registry record) =
      .ok () :=
  (finds_freshFieldName hrecord).check_eq_ok

end Registry
end LiveSchema
