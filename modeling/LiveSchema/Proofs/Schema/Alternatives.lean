import LiveSchema.Proofs.Schema.Edits
import LiveSchema.Proofs.Value.Conformance

/-!
# Variants have alternatives

A variant type without alternatives would have nothing to hold.  The check of type references refuses
it as long as the built-in types are as they were declared.  Whether a field has such a variant in its
type depends on nothing else than the built-in types and the types of fields.
-/

namespace LiveSchema
namespace Registry

variable {registry other : Registry} {reference : TypeReference} {handle : TypeHandle}
  {definition : TypeDefinition}

/-- Each variant type in a type reference has an alternative to hold at first. -/
inductive HasAlternatives (registry : Registry) : TypeReference → Prop
  | intro {reference : TypeReference}
      (here : registry.builtin? reference.handle = some .variant →
        ∃ first, reference.typeArgument? 0 = some first)
      (inside : ∀ inner, TemplateArgument.type inner ∈ reference.arguments →
        HasAlternatives registry inner) : HasAlternatives registry reference

theorem HasAlternatives.here (h : registry.HasAlternatives reference)
    (hvariant : registry.builtin? reference.handle = some .variant) :
    ∃ first, reference.typeArgument? 0 = some first := by
  cases h with
  | intro here _ => exact here hvariant

theorem HasAlternatives.inside (h : registry.HasAlternatives reference) {inner : TypeReference}
    (hmem : TemplateArgument.type inner ∈ reference.arguments) :
    registry.HasAlternatives inner := by
  cases h with
  | intro _ inside => exact inside inner hmem

theorem HasAlternatives.congr (h : registry.HasAlternatives reference)
    (hvariant : ∀ handle, other.builtin? handle = some .variant →
      registry.builtin? handle = some .variant) : other.HasAlternatives reference := by
  induction h with
  | intro here _ ih => exact .intro (fun hhere => here (hvariant _ hhere)) ih

/-- Every built-in type is as it was declared. -/
def BuiltinsAsDeclared (registry : Registry) : Prop :=
  registry.Each fun definition =>
    ∀ builtin, definition.body = .builtin builtin → definition = .ofBuiltin builtin

/-- Built-in types are as declared, and each variant type in the type of a field has an alternative. -/
structure Grounded (registry : Registry) : Prop where
  builtins : registry.BuiltinsAsDeclared
  /-- The type of a new field is no variant. -/
  void : registry.builtin? void ≠ some .variant
  fields : ∀ handle, ∀ field ∈ registry.ownFields handle, registry.HasAlternatives field.type

theorem BuiltinsAsDeclared.get?_of_builtin? (h : registry.BuiltinsAsDeclared) {builtin : Builtin}
    (hbuiltin : registry.builtin? handle = some builtin) :
    registry.get? handle = some (.ofBuiltin builtin) := by
  obtain ⟨definition, hfound, hbody⟩ := builtin?_eq_some.mp hbuiltin
  rw [hfound, h handle definition hfound builtin hbody]

/-- In a legal type reference, variants have alternatives. -/
theorem BuiltinsAsDeclared.hasAlternatives (h : registry.BuiltinsAsDeclared)
    (hlegal : registry.Legal reference) : registry.HasAlternatives reference := by
  induction reference using TypeReference.inner_induction with
  | step reference ih =>
      refine .intro (fun hvariant => ?_) fun inner hmem => ih inner hmem (hlegal.inner hmem)
      obtain ⟨first, hfirst, -⟩ := hlegal.exists_typeArgument? (h.get?_of_builtin? hvariant) 0
        ⟨"TYPES", .anyType, .multiple⟩ rfl (by simp)
      exact ⟨first, hfirst⟩

theorem Grounded.allFields (h : registry.Grounded) {field : Field}
    (hfield : field ∈ registry.allFields handle) : registry.HasAlternatives field.type := by
  rw [allFields_eq_flatMap, List.mem_flatMap] at hfield
  obtain ⟨owner, -, hown⟩ := hfield
  exact h.fields owner field hown

theorem Formed.grounded (h : registry.Formed) : registry.Grounded where
  builtins _ _ hfound _ hbody := h.eq_ofBuiltin hfound hbody
  void := by simp [h.builtin?_iff, Registry.void, Builtin.all]
  fields handle field hfield :=
    BuiltinsAsDeclared.hasAlternatives (fun _ _ hfound _ hbody => h.eq_ofBuiltin hfound hbody)
      (h.fields handle field hfield)

/-! ## Changes of the registry -/

/-- A change keeps all this if it makes no built-in types, and if it brings no types of fields without
alternatives. -/
theorem Grounded.of_changes (h : registry.Grounded)
    (hbuiltins : ∀ handle definition builtin, other.get? handle = some definition →
      definition.body = .builtin builtin → registry.get? handle = some definition)
    (hfields : ∀ handle, ∀ field ∈ other.ownFields handle,
      registry.HasAlternatives field.type) : other.Grounded := by
  have hold : ∀ handle, other.builtin? handle = some .variant →
      registry.builtin? handle = some .variant := by
    intro handle hvariant
    obtain ⟨definition, hfound, hbody⟩ := builtin?_eq_some.mp hvariant
    exact builtin?_eq_some.mpr ⟨definition, hbuiltins _ _ _ hfound hbody, hbody⟩
  constructor
  case builtins =>
      intro handle definition hfound builtin hbody
      have hbefore := hbuiltins handle definition builtin hfound hbody
      exact h.builtins handle definition hbefore builtin hbody
  case void => exact fun hvariant => h.void (hold _ hvariant)
  case fields => exact fun handle field hfield => (hfields handle field hfield).congr hold

theorem Grounded.modify (h : registry.Grounded) {f : TypeDefinition → TypeDefinition}
    (hbody : ∀ definition builtin, registry.get? handle = some definition →
      (f definition).body = .builtin builtin → f definition = definition)
    (hfields : ∀ definition, registry.get? handle = some definition →
      ∀ field ∈ (f definition).fields, registry.HasAlternatives field.type) :
    (registry.modify handle f).Grounded := by
  refine h.of_changes (fun place definition builtin hfound hbuiltin => ?_) fun place field hfield => ?_
  · rcases get?_modify_cases hfound with ⟨old, rfl, hold, rfl⟩ | hold
    · rw [hbody old builtin hold hbuiltin, hold]
    · exact hold
  · obtain ⟨definition, hfound, -, hmem⟩ := get?_of_mem_ownFields hfield
    rcases get?_modify_cases hfound with ⟨old, -, hold, rfl⟩ | hold
    · exact hfields old hold field hmem
    · exact h.fields place field (ownFields_of_get? hold ▸ hmem)

theorem Grounded.modifyRecord (h : registry.Grounded) {f : Record → Record}
    (hfields : ∀ definition record, registry.get? handle = some definition →
      definition.body = .record record → ∀ field ∈ (f record).fields,
        registry.HasAlternatives field.type) : (registry.modifyRecord handle f).Grounded := by
  refine h.modify (fun definition builtin _ hbody => ?_) fun definition hfound field hfield => ?_
  · obtain ⟨name, base, parameters, body⟩ := definition
    cases body with
    | record record => exact absurd hbody (by simp [TypeDefinition.mapRecord])
    | builtin | enumeration => rfl
  · cases hbody : definition.body with
    | record record =>
        simp only [TypeDefinition.mapRecord, hbody, TypeDefinition.fields] at hfield
        exact hfields definition record hfound hbody field hfield
    | builtin | enumeration =>
        simp [TypeDefinition.mapRecord, hbody, TypeDefinition.fields] at hfield

theorem Grounded.modifyFields (h : registry.Grounded) (g : List Field → List Field)
    (hfields : ∀ field ∈ g (registry.ownFields handle), registry.HasAlternatives field.type) :
    (registry.modifyFields handle g).Grounded := by
  refine h.modifyRecord fun definition record hfound hbody field hfield => hfields field ?_
  rw [ownFields_of_get? hfound]
  simpa [TypeDefinition.fields, hbody] using hfield

/-- Fields with types that were there before bring nothing new. -/
theorem Grounded.modifyFields_of_types (h : registry.Grounded) (g : List Field → List Field)
    (htypes : ∀ field ∈ g (registry.ownFields handle),
      ∃ old ∈ registry.ownFields handle, old.type = field.type) :
    (registry.modifyFields handle g).Grounded := by
  refine h.modifyFields g fun field hfield => ?_
  obtain ⟨old, hold, hsame⟩ := htypes field hfield
  exact hsame ▸ h.fields handle old hold

theorem Grounded.modifyEnumerators (h : registry.Grounded)
    (g : List Enumerator → List Enumerator) : (registry.modifyEnumerators handle g).Grounded := by
  refine h.modify (fun definition builtin _ hbody => ?_) fun definition hfound field hfield => ?_
  · obtain ⟨name, base, parameters, body⟩ := definition
    cases body with
    | enumeration held => exact absurd hbody (by simp [TypeDefinition.mapEnumerators])
    | builtin | record => rfl
  · rw [TypeDefinition.mapEnumerators_fields] at hfield
    exact h.fields handle field (ownFields_of_get? hfound ▸ hfield)

/-- A user type may change in anything but what it is and the types of its fields. -/
theorem Grounded.modify_user (h : registry.Grounded) {f : TypeDefinition → TypeDefinition}
    (hfound : registry.get? handle = some definition) (huser : definition.isBuiltin = false)
    (hbody : (f definition).body = definition.body) : (registry.modify handle f).Grounded := by
  refine h.modify (fun found builtin hfound' hbuiltin => ?_) fun found hfound' field hfield => ?_
  · obtain rfl := Option.some.inj (hfound.symm.trans hfound')
    rw [hbody] at hbuiltin
    exact absurd huser (by simp [TypeDefinition.isBuiltin_of_builtin hbuiltin])
  · obtain rfl := Option.some.inj (hfound.symm.trans hfound')
    rw [TypeDefinition.fields, hbody, ← TypeDefinition.fields] at hfield
    exact h.fields handle field (ownFields_of_get? hfound ▸ hfield)

theorem Grounded.declare (h : registry.Grounded) (huser : definition.isBuiltin = false)
    (hfields : definition.fields = []) : (registry.declare definition).Grounded := by
  refine h.of_changes (fun place found builtin hfound hbody => ?_) fun place field hfield => ?_
  · rcases get?_declare_cases hfound with ⟨-, rfl⟩ | hold
    · exact absurd huser (by simp [TypeDefinition.isBuiltin_of_builtin hbody])
    · exact hold
  · obtain ⟨found, hfound, -, hmem⟩ := get?_of_mem_ownFields hfield
    rcases get?_declare_cases hfound with ⟨-, rfl⟩ | hold
    · exact absurd (hfields ▸ hmem) List.not_mem_nil
    · exact h.fields place field (ownFields_of_get? hold ▸ hmem)

theorem Grounded.remove (h : registry.Grounded) (handle : TypeHandle) :
    (registry.remove handle).Grounded := by
  refine h.of_changes (fun _ _ _ hfound _ => (get?_of_get?_remove hfound).2) fun place field hfield => ?_
  obtain ⟨found, hfound, -, hmem⟩ := get?_of_mem_ownFields hfield
  exact h.fields place field (ownFields_of_get? (get?_of_get?_remove hfound).2 ▸ hmem)

end Registry
end LiveSchema
