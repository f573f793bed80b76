import LiveSchema.Proofs.Schema.Formed
import LiveSchema.Usage

/-!
# Types without usages

A type that no usage prevents from being deleted is not mentioned by the definition of any other type,
and no root that is left holds a value whose type mentions it.
-/

namespace LiveSchema

namespace TypeReference

theorem occurrencesFrom_eq_nil {handle : TypeHandle} {index : Nat}
    {arguments : List TemplateArgument} :
    TemplateArgument.occurrencesFrom handle index arguments = [] ↔
      ∀ inner, TemplateArgument.type inner ∈ arguments → inner.occurrences handle = [] := by
  induction arguments generalizing index with
  | nil => simp [TemplateArgument.occurrencesFrom]
  | cons argument rest ih =>
      cases argument with
      | size count => simp [TemplateArgument.occurrencesFrom, ih]
      | type inner =>
          simp only [TemplateArgument.occurrencesFrom, List.append_eq_nil_iff, List.map_eq_nil_iff,
            ih, List.mem_cons, TemplateArgument.type.injEq]
          constructor
          · rintro ⟨hfirst, hrest⟩ other (rfl | hmem)
            · exact hfirst
            · exact hrest other hmem
          · intro h
            exact ⟨h inner (Or.inl rfl), fun other hmem => h other (Or.inr hmem)⟩

/-- A type that occurs nowhere in a reference is not mentioned. -/
theorem occurrences_eq_nil {handle : TypeHandle} {reference : TypeReference} :
    reference.occurrences handle = [] ↔ reference.mentions handle = false := by
  induction reference using inner_induction with
  | step reference ih =>
      have hmentions : reference.mentions handle = true ↔ _ := mentions_iff
      obtain ⟨head, arguments⟩ := reference
      rw [occurrences, List.append_eq_nil_iff, occurrencesFrom_eq_nil, ← Bool.not_eq_true,
        hmentions, not_or]
      refine and_congr (by simp) ?_
      constructor
      · rintro h ⟨inner, hmem, hinner⟩
        have hfree := (ih inner hmem).mp (h inner hmem)
        exact absurd (hinner.symm.trans hfree) (by simp)
      · intro h inner hmem
        refine (ih inner hmem).mpr ?_
        rw [← Bool.not_eq_true]
        exact fun hinner => h ⟨inner, hmem, hinner⟩

end TypeReference

namespace Registry

/-- The definition of a type mentions another type, at any depth of one of its references. -/
def RefersTo (registry : Registry) (other handle : TypeHandle) : Prop :=
  ∃ reference, registry.Refers other reference ∧ reference.mentions handle = true

end Registry

namespace Content

open Registry

variable {content : Content} {handle other : TypeHandle}

theorem isBlocking_of_mem_usagesBy {usage : Usage}
    (h : usage ∈ content.usagesBy handle other) : usage.isBlocking = true := by
  unfold usagesBy at h
  rcases List.mem_append.mp h with h | h
  · obtain ⟨field, -, hfield⟩ := List.mem_filterMap.mp h
    dsimp only at hfield
    split at hfield
    · exact absurd hfield (by simp)
    · cases hfield
      rfl
  · split at h
    · cases List.mem_singleton.mp h
      rfl
    · exact absurd h List.not_mem_nil

theorem usagesBy_eq_nil :
    content.usagesBy handle other = [] ↔ ¬ content.registry.RefersTo other handle := by
  have hfield : ∀ field : Field,
      (let paths := field.type.occurrences handle
        if paths = [] then none else some (Usage.field other field.name paths)) = none ↔
        field.type.mentions handle = false := by
    intro field
    rw [← TypeReference.occurrences_eq_nil]
    simp
  unfold usagesBy
  rw [List.append_eq_nil_iff, List.filterMap_eq_nil_iff]
  simp only [hfield, ite_eq_right_iff, List.cons_ne_nil, imp_false, Bool.not_eq_true]
  constructor
  · rintro ⟨hfields, hbase⟩ ⟨reference, hrefers, hmentions⟩
    cases hrefers with
    | base hfound hsome =>
        rw [hfound, Option.bind_some, hsome, Option.any_some] at hbase
        exact absurd (hmentions.symm.trans hbase) (by simp)
    | field hmem => exact absurd (hmentions.symm.trans (hfields _ hmem)) (by simp)
  · intro h
    refine ⟨fun field hmem => ?_, ?_⟩
    · by_contra hmentions
      exact h ⟨_, .field hmem, by simpa using hmentions⟩
    · by_contra hmentions
      rw [Bool.not_eq_false, Option.any_eq_true] at hmentions
      obtain ⟨base, hsome, hmentions⟩ := hmentions
      obtain ⟨definition, hfound, hbase⟩ := Option.bind_eq_some_iff.mp hsome
      exact h ⟨base, .base hfound hbase, hmentions⟩

/-- A type can go just if no other type of the user refers to it. -/
theorem blocking_eq_nil_iff : (content.usages handle).filter Usage.isBlocking = [] ↔
    ∀ other ∈ content.registry.userTypes, other ≠ handle →
      ¬ content.registry.RefersTo other handle := by
  unfold usages
  rw [List.filter_append, List.append_eq_nil_iff, and_iff_left, List.filter_eq_nil_iff]
  · constructor
    · intro h other huser hne
      refine usagesBy_eq_nil.mp (List.eq_nil_iff_forall_not_mem.mpr fun usage husage => ?_)
      refine h usage (List.mem_flatMap.mpr ⟨other, ?_, husage⟩) (isBlocking_of_mem_usagesBy husage)
      exact List.mem_filter.mpr ⟨huser, by simpa using hne⟩
    · intro h usage husage
      obtain ⟨other, hother, hby⟩ := List.mem_flatMap.mp husage
      obtain ⟨huser, hne⟩ := List.mem_filter.mp hother
      rw [usagesBy_eq_nil.mpr (h other huser (by simpa using hne))] at hby
      exact absurd hby List.not_mem_nil
  · -- what is stored prevents nothing
    refine List.filter_eq_nil_iff.mpr fun usage husage => ?_
    obtain ⟨entry, -, hentry⟩ := List.mem_filterMap.mp husage
    dsimp only at hentry
    split at hentry
    · exact absurd hentry (by simp)
    · cases hentry
      simp [Usage.isBlocking]

/-- Where no usage prevents the deletion of a type, no other type refers to it. -/
theorem unused_of_usages (hformed : content.registry.Formed)
    (hfree : (content.usages handle).filter Usage.isBlocking = []) :
    content.registry.Unused handle := by
  intro other definition hne hfound
  by_cases hbuiltin : definition.isBuiltin = true
  · obtain ⟨builtin, hbody⟩ := TypeDefinition.isBuiltin_iff.mp hbuiltin
    obtain rfl := hformed.eq_ofBuiltin hfound hbody
    exact ⟨by simp [TypeDefinition.fields, TypeDefinition.ofBuiltin],
      fun base hbase => absurd hbase (by rintro ⟨⟩)⟩
  · have huser : other ∈ content.registry.userTypes := by
      unfold userTypes
      refine List.mem_filter.mpr ⟨mem_handles.mpr (isLive_of_get? hfound), ?_⟩
      simpa [hfound] using hbuiltin
    have hnone := blocking_eq_nil_iff.mp hfree other huser hne
    refine ⟨fun field hfield => ?_, fun base hbase => ?_⟩
    · by_contra hmentions
      rw [← ownFields_of_get? hfound] at hfield
      exact hnone ⟨_, .field hfield, by simpa using hmentions⟩
    · by_contra hmentions
      exact hnone ⟨base, .base hfound hbase, by simpa using hmentions⟩

end Content
end LiveSchema
