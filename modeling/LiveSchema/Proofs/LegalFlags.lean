import LiveSchema.Proofs.Mutation.Names
import LiveSchema.Proofs.Reachable
import LiveSchema.Proofs.Schema.LegalFlags

/-!
# Flags in every reachable database

Whether flags are legal depends on the field, on its type and on its record, and different mutations
change each of these.  Each of them checks from its own side; a mutation that checks nothing brings
fields without flags or leaves fields out.  So in every database that mutations lead to all flags are
legal.
-/

namespace LiveSchema

namespace Registry

variable {registry before after : Registry} {record : TypeHandle}

theorem wellFlagged_initial : initial.WellFlagged := by
  intro handle definition hfound
  rw [get?_initial, Option.map_eq_some_iff] at hfound
  obtain ⟨builtin, -, rfl⟩ := hfound
  exact legallyFlagged_of_not_record rfl

section Edits

variable (h : registry.Each before.LegallyFlagged)
include h

theorem Each.modifyFields {g : List Field → List Field}
    (hg : ∀ definition, registry.get? record = some definition →
      ∀ field ∈ g definition.fields, field ∈ definition.fields ∨
        before.FitsFlags definition.variant definition.flags field.type field.flags) :
    (registry.modifyFields record g).Each before.LegallyFlagged :=
  h.modify fun definition hfound => (h record definition hfound).mapFields (hg definition hfound)

/-- Fields that are left out or take other places change nothing. -/
theorem Each.modifyFields_of_subset {g : List Field → List Field}
    (hg : ∀ fields, g fields ⊆ fields) :
    (registry.modifyFields record g).Each before.LegallyFlagged :=
  h.modifyFields fun _ _ _ hfield => Or.inl (hg _ hfield)

/-- A field that changes at its place has to fit with the type and the flags that it gets. -/
theorem Each.modifyField {index : Nat} {own : Field} {f : Field → Field}
    (hindex : (registry.ownFields record)[index]? = some own)
    (hfits : ∀ definition, registry.get? record = some definition →
      before.FitsFlags definition.variant definition.flags (f own).type (f own).flags) :
    (registry.modifyFields record fun fields => fields.modify index f).Each
      before.LegallyFlagged := by
  refine h.modifyFields fun definition hfound field hfield => ?_
  rcases mem_modify hfield with hold | ⟨old, hold, rfl⟩
  · exact Or.inl hold
  · rw [ownFields_of_get? hfound, hold] at hindex
    obtain rfl := Option.some.inj hindex
    exact Or.inr (hfits definition hfound)

theorem Each.setBase (base : Option TypeReference) :
    (registry.setBase record base).Each before.LegallyFlagged :=
  h.modify fun definition hfound => (h record definition hfound).of_same rfl rfl rfl

theorem Each.modifyEnumerators (g : List Enumerator → List Enumerator) :
    (registry.modifyEnumerators record g).Each before.LegallyFlagged :=
  h.modify fun definition hfound => (h record definition hfound).of_same
    (congrArg Outline.variant (definition.mapEnumerators_outline g))
    (definition.flags_mapEnumerators g) (definition.mapEnumerators_fields g)

end Edits

/-- Flags that pass their check on a record fit it. -/
theorem fitsFlags_of_check {definition : TypeDefinition} {type : TypeReference}
    {flags : FieldFlags} (hfound : registry.get? record = some definition)
    (hcheck : Legality.checkFieldFlags registry record type flags = .ok ()) :
    registry.FitsFlags definition.variant definition.flags type flags := by
  obtain ⟨checked, hchecked, -, hfits⟩ := checkFieldFlags_eq_ok.mp hcheck
  obtain rfl := Option.some.inj (hchecked.symm.trans hfound)
  exact hfits

/-- The definitions after a change of names may be checked against either registry. -/
theorem Follows.wellFlagged {change : NameChange} (h : Follows before after change)
    (hafter : after.WellFormed) (hflags : after.Each before.LegallyFlagged) : after.WellFlagged := by
  intro handle definition hfound
  obtain ⟨htable, hfields⟩ := hflags handle definition hfound
  refine ⟨htable, fun field hfield => (hfields field hfield).congr fun hlive => ?_⟩
  obtain ⟨first, hfirst⟩ := isLive_iff.mp hlive
  obtain ⟨second, hsecond⟩ :=
    (hafter.fields handle field ((ownFields_of_get? hfound).symm ▸ hfield)).get?
  exact h.outline?_eq hfirst hsecond

/-! ## Every transition -/

/-- Flags that an own field has, or gets after their check, are legal on it. -/
theorem WellFlagged.fieldsTransition (hflags : registry.WellFlagged) {g : List Field → List Field}
    (h : registry.FieldsTransition record g) :
    (registry.modifyFields record g).Each registry.LegallyFlagged := by
  cases h with
  | added =>
      refine Each.modifyFields hflags fun definition _ field hfield => ?_
      rcases List.mem_append.mp hfield with hold | hnew
      · exact Or.inl hold
      · cases List.mem_singleton.mp hnew
        exact Or.inr fitsFlags_empty
  | @renamed index own name hindex _ =>
      refine Each.modifyField hflags hindex fun definition hfound => ?_
      rw [ownFields_of_get? hfound] at hindex
      exact (hflags record definition hfound).fields own (List.mem_of_getElem? hindex)
  | retyped hindex _ hcheck =>
      exact Each.modifyField hflags hindex fun definition hfound => fitsFlags_of_check hfound hcheck
  | flagged hindex hcheck =>
      exact Each.modifyField hflags hindex fun definition hfound => fitsFlags_of_check hfound hcheck
  | exchanged first second =>
      exact Each.modifyFields_of_subset hflags fun fields => (exchange_perm fields first second).subset
  | erased index =>
      exact Each.modifyFields_of_subset hflags fun fields =>
        (List.eraseIdx_sublist fields index).subset

/-- What a transition makes of the definitions is legal in the registry before it. -/
theorem WellFlagged.transition (hflags : before.WellFlagged) {change : NameChange}
    (h : before.Transition change after) : after.Each before.LegallyFlagged := by
  cases h with
  | same => exact hflags
  | declaredRecord => exact Each.declare hflags (legallyFlagged_newRecord _ _)
  | declaredEnumeration => exact Each.declare hflags (legallyFlagged_of_not_record rfl)
  | @renamed type =>
      exact Each.modify hflags fun definition hfound =>
        (hflags type definition hfound).of_same rfl rfl rfl
  | @removed type => exact Each.remove hflags type
  | rebased => exact Each.setBase hflags _
  | @flagged record flags _ hcheck =>
      obtain ⟨checked, hchecked, -, htable, hfields⟩ := checkRecordFlags_eq_ok.mp hcheck
      refine Each.modify hflags fun definition hfound => ?_
      obtain rfl := Option.some.inj (hchecked.symm.trans hfound)
      exact (hflags record checked hchecked).mapFlags htable hfields
  | reshaped _ hfields => exact hflags.fieldsTransition hfields
  | @moved source target index own _ _ hderived _ hcheck =>
      have hne : target ≠ source := by
        rw [isStrictAncestor, Bool.and_eq_true] at hderived
        simpa using (of_decide_eq_true hderived.1).symm
      have herased : (before.modifyFields source fun fields => fields.eraseIdx index).Each
          before.LegallyFlagged := hflags.fieldsTransition (.erased index)
      refine herased.modifyFields fun definition hfound field hfield => ?_
      rw [Registry.modifyFields, modifyRecord, get?_modify_of_ne _ hne] at hfound
      rcases List.mem_cons.mp hfield with rfl | hold
      · exact Or.inr (fitsFlags_of_check hfound hcheck)
      · exact Or.inl hold
  | flattened _ _ hcheck =>
      refine Each.setBase (Each.modifyFields hflags fun found hfound field hfield => ?_) _
      rcases List.mem_append.mp hfield with hinherited | hold
      · exact Or.inr (fitsFlags_of_check hfound (hcheck field hinherited))
      · exact Or.inl hold
  | enumerated => exact Each.modifyEnumerators hflags _

end Registry

/-- A mutation that is not refused keeps all flags legal. -/
theorem Mutation.wellFlagged_carryOut {content : Content} {mutation : Mutation} {change : Change}
    (hwf : content.registry.WellFormed) (hflags : content.registry.WellFlagged)
    (h : mutation.carryOut content = .ok change) : change.content.registry.WellFlagged :=
  have htransition := transition_carryOut h
  htransition.follows.wellFlagged (hwf.transition htransition) (hflags.transition htransition)

namespace Database

variable {digest : String → String} {database : Database}

theorem Reachable.wellFlagged (h : Reachable digest database) :
    database.content.registry.WellFlagged := by
  have hboth : database.content.registry.WellFormed ∧ database.content.registry.WellFlagged := by
    refine h.content_induction
      (motive := fun content => content.registry.WellFormed ∧ content.registry.WellFlagged)
      ⟨Registry.wellFormed_initial, Registry.wellFlagged_initial⟩ ?_
    rintro content mutation change ⟨hwf, hflags⟩ hchange
    exact ⟨Mutation.wellFormed_carryOut hwf hchange,
      Mutation.wellFlagged_carryOut hwf hflags hchange⟩
  exact hboth.2

/-- In every database that can be reached, every own field of a record has legal flags: only fields of
classes are private or have a getter or a setter, and those with a getter or a setter are private; only
scalar fields of structs that are kept as tables are unique or indexed.  And only structs are kept as
tables. -/
theorem legal_flags_of_reachable (h : Reachable digest database) :
    (∀ record definition, database.content.registry.get? record = some definition →
      ∀ field ∈ database.content.registry.ownFields record,
        (field.flags.isPrivate = true ∨ field.flags.hasGetter = true ∨
            field.flags.hasSetter = true → definition.variant = .class) ∧
          (field.flags.hasGetter = true ∨ field.flags.hasSetter = true →
            field.flags.isPrivate = true) ∧
          (field.flags.isUnique = true ∨ field.flags.isIndexed = true →
            definition.variant = .struct ∧
              (Legality.flagsOf database.content.registry record).isTable = true ∧
              database.content.registry.satisfies field.type.handle .scalar = true)) ∧
      ∀ record definition, database.content.registry.get? record = some definition →
        (Legality.flagsOf database.content.registry record).isTable = true →
          definition.variant = .struct := by
  have hflags := h.wellFlagged
  refine ⟨fun record definition hfound field hfield => ?_, fun record definition hfound htable => ?_⟩
  · rw [Registry.ownFields_of_get? hfound] at hfield
    rw [Registry.flagsOf_of_get? hfound]
    obtain ⟨haccess, haccessors, hkeys⟩ := (hflags record definition hfound).fields field hfield
    exact ⟨haccess, haccessors, hkeys⟩
  · rw [Registry.flagsOf_of_get? hfound] at htable
    exact (hflags record definition hfound).table htable

/-- A private field with a getter, the only one of a new class. -/
theorem legal_flags_of_class_with_getter :
    let type := (inMemory.apply id ⟨0, 0⟩ NameMap.empty .addClass).database
    let field := (type.apply id ⟨1, 0⟩ NameMap.empty (.addField ⟨37⟩)).database
    let database := (field.apply id ⟨2, 0⟩ NameMap.empty
      (.setFieldFlags ⟨37⟩ "field1" ⟨5⟩)).database
    (database.content.registry.ownFields ⟨37⟩).map (fun own => own.flags.hasGetter) = [true] ∧
      ∀ own ∈ database.content.registry.ownFields ⟨37⟩, own.flags.hasGetter = true →
        own.flags.isPrivate = true := by
  intro type field database
  have hreachable : Reachable id database :=
    (((Reachable.fresh).step ⟨0, 0⟩ NameMap.empty .addClass).step ⟨1, 0⟩ NameMap.empty
      (.addField ⟨37⟩)).step ⟨2, 0⟩ NameMap.empty (.setFieldFlags ⟨37⟩ "field1" ⟨5⟩)
  have hlive : ∃ definition, database.content.registry.get? ⟨37⟩ = some definition :=
    Option.isSome_iff_exists.mp (by decide)
  obtain ⟨definition, hfound⟩ := hlive
  refine ⟨by decide, fun own hown hgetter => ?_⟩
  have hlegal := (legal_flags_of_reachable hreachable).1 ⟨37⟩ definition hfound own hown
  exact hlegal.2.1 (Or.inl hgetter)

end Database
end LiveSchema
