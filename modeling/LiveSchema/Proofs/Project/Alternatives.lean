import LiveSchema.Proofs.Mutation.Registry
import LiveSchema.Proofs.Project.Restored
import LiveSchema.Proofs.Project.Stages
import LiveSchema.Proofs.Schema.Alternatives

/-!
# Variants have alternatives in every database

Every type of a field was checked when it was given to the field or read from a file, if perhaps before
other types had their parameters.  So no database that was opened, and changed by any mutations, has a
field with a variant in its type that has no alternatives, whatever its files say.
-/

namespace LiveSchema

open Registry

/-! ## Restoring -/

namespace SchemaDocument

variable {document : SchemaDocument} {declared registry : Registry}

theorem isBuiltin_of_blankDefinition? {name : String} {definition : TypeDefinition}
    (h : document.blankDefinition? name = some definition) :
    definition.isBuiltin = false ∧ definition.fields = [] := by
  unfold blankDefinition? at h
  split at h <;> cases h <;> exact ⟨rfl, rfl⟩

theorem grounded_of_declared {names : List String}
    (h : names.foldlM document.declareType Registry.initial = .ok declared) :
    declared.Grounded := by
  refine foldlM_keeps Registry.Grounded (fun registry name after hgrounded hstep => ?_)
    formed_initial.grounded h
  unfold declareType at hstep
  split at hstep
  next => exact absurd hstep (by simp)
  next definition hnew =>
      split at hstep
      next => exact absurd hstep (by simp)
      next =>
          obtain rfl := Except.ok.inj hstep
          obtain ⟨huser, hfields⟩ := isBuiltin_of_blankDefinition? hnew
          exact hgrounded.declare huser hfields

/-- Template parameters are given to user types only. -/
theorem builtinsAsDeclared_withParameters (document : SchemaDocument)
    (hdeclared : declared.BuiltinsAsDeclared) {handles : List TypeHandle}
    (husers : ∀ handle ∈ handles, handle ∈ declared.userTypes) :
    (document.withParameters declared handles).BuiltinsAsDeclared := by
  intro handle definition hfound builtin hbody
  rw [get?_withParameters, Option.map_eq_some_iff] at hfound
  obtain ⟨old, hold, rfl⟩ := hfound
  by_cases hmem : handle ∈ handles
  · obtain ⟨found, hfound', huser⟩ := mem_userTypes.mp (husers handle hmem)
    obtain rfl := Option.some.inj (hold.symm.trans hfound')
    rw [if_pos hmem] at hbody
    have hold : old.body = .builtin builtin := hbody
    exact absurd huser (by simp [TypeDefinition.isBuiltin_of_builtin hold])
  · rw [if_neg hmem] at hbody ⊢
    exact hdeclared handle old hold builtin hbody

theorem builtin?_withParameters (handles : List TypeHandle) (handle : TypeHandle) :
    (document.withParameters declared handles).builtin? handle = declared.builtin? handle := by
  rw [builtin?, builtin?, get?_withParameters, Option.bind_map]
  refine congrArg (Option.bind _) (funext fun definition => ?_)
  rw [Function.comp_apply]
  split <;> rfl

theorem builtin?_of_sameOutlines {other : Registry} (h : SameOutlines registry other)
    (handle : TypeHandle) : other.builtin? handle = registry.builtin? handle := by
  have hsame := congrArg (Option.bind · Outline.builtin) (h.outlines handle)
  rw [outline?, outline?, Option.bind_map, Option.bind_map] at hsame
  exact hsame

/-- The types of fields were legal at the stage of their record, so their variants have alternatives
in the end. -/
theorem grounded_of_restore (h : document.restore = .ok registry) : registry.Grounded := by
  unfold restore at h
  split at h
  next => exact absurd h (by simp [throw, throwThe, MonadExceptOf.throw, bind, Except.bind])
  next =>
      simp only [bind_eq_ok] at h
      obtain ⟨declared, hdeclared, hdescribed⟩ := h
      have hgrounded := grounded_of_declared hdeclared
      have hlive : ∀ handle ∈ declared.userTypes, declared.isLive handle = true := by
        intro handle hmem
        obtain ⟨definition, hfound, -⟩ := mem_userTypes.mp hmem
        exact isLive_of_get? hfound
      obtain ⟨hend, hothers, hrefers⟩ := foldlM_describeType_ok
        (sameOutlines_withParameters_nil document declared) hlive declared.nodup_userTypes hdescribed
      rw [List.nil_append] at hend
      have hbuiltin : ∀ handle, registry.builtin? handle = declared.builtin? handle := by
        intro handle
        rw [builtin?_of_sameOutlines hend, builtin?_withParameters]
      refine hgrounded.of_changes (fun handle definition builtin hfound hbody => ?_) ?_
      · rw [← hothers handle fun hmem => ?_, hfound]
        obtain ⟨blank, hblank, huser⟩ := mem_userTypes.mp hmem
        have hsame := hbuiltin handle
        rw [builtin?, builtin?, hfound, hblank] at hsame
        simp only [Option.bind_some, TypeDefinition.builtin?, hbody] at hsame
        exact absurd huser (by simp [TypeDefinition.isBuiltin, TypeDefinition.builtin?, ← hsame])
      · intro handle field hfield
        by_cases hmem : handle ∈ declared.userTypes
        · obtain ⟨index, hindex⟩ := List.mem_iff_getElem?.mp hmem
          obtain ⟨-, -, -, -, -, hlegal⟩ := hrefers index handle hindex field.type (.field hfield)
          have husers : ∀ other ∈ [] ++ declared.userTypes.take index,
              other ∈ declared.userTypes := fun other hother => List.mem_of_mem_take hother
          have hstage := builtinsAsDeclared_withParameters document hgrounded.builtins husers
          refine (hstage.hasAlternatives hlegal).congr fun other hother => ?_
          rwa [builtin?_withParameters]
        · rw [ownFields_eq, hothers handle hmem, ← ownFields_eq] at hfield
          exact hgrounded.fields handle field hfield

end SchemaDocument

/-! ## Transitions -/

namespace Registry

variable {registry : Registry} {handle : TypeHandle} {definition : TypeDefinition}

/-- What has a base type is no built-in type, so it may get another base type. -/
theorem Grounded.setBase (h : registry.Grounded) {record : TypeHandle}
    (hfound : registry.get? record = some definition) (huser : definition.isBuiltin = false)
    (base : Option TypeReference) : (registry.setBase record base).Grounded :=
  h.modify_user hfound huser rfl

theorem Grounded.isBuiltin_of_baseOf? (h : registry.Grounded) {base : TypeHandle}
    (hbase : registry.baseOf? handle = some base) :
    ∃ definition, registry.get? handle = some definition ∧ definition.isBuiltin = false := by
  obtain ⟨definition, reference, hfound, hdefined, -⟩ := get?_of_baseOf? hbase
  refine ⟨definition, hfound, ?_⟩
  cases hbody : definition.body with
  | builtin builtin =>
      rw [h.builtins handle definition hfound builtin hbody] at hdefined
      exact absurd hdefined (by rintro ⟨⟩)
  | enumeration enumeration => exact TypeDefinition.isBuiltin_of_enumeration hbody
  | record record => exact TypeDefinition.isBuiltin_of_record hbody

theorem builtin?_modifyFields {record : TypeHandle} (g : List Field → List Field)
    (handle : TypeHandle) :
    (registry.modifyFields record g).builtin? handle = registry.builtin? handle := by
  rw [builtin?, builtin?, modifyFields, modifyRecord, get?_modify]
  split
  next hsame =>
      rw [hsame, Option.bind_map]
      refine congrArg (Option.bind _) (funext fun definition => ?_)
      obtain ⟨name, base, parameters, body⟩ := definition
      cases body <;> rfl
  next => rfl

theorem exists_type_of_mem_modify {α : Type} {f : α → α} {g : α → TypeReference} {list : List α}
    {index : Nat} (hf : ∀ item, g (f item) = g item) :
    ∀ item ∈ list.modify index f, ∃ old ∈ list, g old = g item := by
  intro item hitem
  rcases mem_modify hitem with hold | ⟨old, hold, rfl⟩
  · exact ⟨item, hold, rfl⟩
  · exact ⟨old, List.mem_of_getElem? hold, (hf old).symm⟩

theorem Grounded.fieldsTransition (h : registry.Grounded) {record : TypeHandle}
    {g : List Field → List Field} (htransition : registry.FieldsTransition record g) :
    (registry.modifyFields record g).Grounded := by
  cases htransition with
  | added =>
      refine h.modifyFields _ fun field hfield => ?_
      rcases List.mem_append.mp hfield with hold | hnew
      · exact h.fields record field hold
      · obtain rfl := List.mem_singleton.mp hnew
        exact .intro (fun hvariant => absurd hvariant h.void) (by simp [TypeReference.plain])
  | renamed | flagged =>
      exact h.modifyFields_of_types _ (exists_type_of_mem_modify fun _ => rfl)
  | retyped _ hcheck _ =>
      obtain ⟨-, hlegal, -⟩ := Legality.checkFieldType_eq_ok.mp hcheck
      refine h.modifyFields _ fun field hfield => ?_
      rcases mem_modify hfield with hold | ⟨old, -, rfl⟩
      · exact h.fields record field hold
      · exact h.builtins.hasAlternatives hlegal
  | exchanged first second =>
      exact h.modifyFields_of_types (fun fields => Content.exchange fields first second)
        fun field hfield => ⟨field, (exchange_perm _ first second).mem_iff.mp hfield, rfl⟩
  | erased index =>
      exact h.modifyFields_of_types (fun fields => fields.eraseIdx index)
        fun field hfield => ⟨field, List.mem_of_mem_eraseIdx hfield, rfl⟩

/-- No transition makes a variant without alternatives. -/
theorem Grounded.transition (h : registry.Grounded) {change : NameChange} {after : Registry}
    (htransition : registry.Transition change after) : after.Grounded := by
  cases htransition with
  | same => exact h
  | declaredRecord | declaredEnumeration => exact h.declare rfl rfl
  | renamed hfound huser => exact h.modify_user hfound huser rfl
  | @removed type => exact h.remove type
  | rebased hcheck =>
      obtain ⟨definition, hfound, hrecord, -⟩ := Legality.checkBase_eq_ok.mp hcheck
      exact h.setBase hfound (TypeDefinition.isBuiltin_of_isRecord hrecord) _
  | @flagged record flags =>
      refine h.modifyRecord fun definition own hfound hbody field hfield => ?_
      refine h.fields record field ?_
      rw [ownFields_of_get? hfound]
      simpa [TypeDefinition.fields, hbody] using hfield
  | reshaped _ hfields => exact h.fieldsTransition hfields
  | @moved source target index own _ _ _ hindex _ =>
      have hown := h.fields source own (List.mem_of_getElem? hindex)
      have hsource : (registry.modifyFields source fun fields => fields.eraseIdx index).Grounded :=
        h.fieldsTransition (.erased index)
      refine hsource.modifyFields _ fun held hheld => ?_
      rcases List.mem_cons.mp hheld with rfl | hheld
      · exact hown.congr fun handle hvariant => (builtin?_modifyFields _ handle).symm.trans hvariant
      · exact hsource.fields target held hheld
  | @flattened record base definition hbase hfound _ =>
      have hfields : ∀ field ∈ definition.fields ++ registry.ownFields record,
          registry.HasAlternatives field.type := by
        intro field hfield
        rcases List.mem_append.mp hfield with hcopied | hown
        · exact h.fields base field ((ownFields_of_get? hfound).symm ▸ hcopied)
        · exact h.fields record field hown
      have hcopied := h.modifyFields (fun own => definition.fields ++ own) hfields
      obtain ⟨_, hlive, huser⟩ :=
        hcopied.isBuiltin_of_baseOf? ((baseOf?_modifyFields _ _).trans hbase)
      exact hcopied.setBase hlive huser definition.base
  | enumerated => exact h.modifyEnumerators _

end Registry

/-! ## Databases -/

namespace Database

variable {digest : String → String} {database : Database}

theorem grounded_of_openAt {project : Option Project} {files : Directory}
    (h : openAt digest project files = .ok database) : database.content.registry.Grounded := by
  rcases content_of_openAt h with hinitial | ⟨source, content, hrestored, hcontent⟩
  · rw [hinitial]
    exact formed_initial.grounded
  · obtain ⟨document, hregistry, -⟩ := Project.restored_of_restore? hrestored
    rw [hcontent]
    exact SchemaDocument.grounded_of_restore hregistry

/-- In a database that was opened, and after any mutations since, the types of fields have no variants
without alternatives. -/
theorem Opened.grounded (h : Opened digest database) : database.content.registry.Grounded := by
  induction h with
  | opened h => exact grounded_of_openAt h
  | @applied database _ time files mutation _ ih =>
      rcases apply_content_cases digest database time files mutation with
        ⟨_, -, hsame⟩ | ⟨change, hchange, hcontent⟩
      · rw [hsame]
        exact ih
      · rw [hcontent]
        exact ih.transition (Mutation.transition_carryOut hchange)

end Database
end LiveSchema
