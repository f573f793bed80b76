import LiveSchema.Proofs.Mutation.Migration
import LiveSchema.Proofs.Mutation.Registry

/-!
# Objects of a record whose fields change

Adding, deleting, exchanging and moving fields, and taking over those of the base type, leave every
name that stays with the type it had.  So objects that are given exactly the fields of their record
conform again, and so does everything around them.
-/

namespace LiveSchema

namespace TypeDefinition

@[simp] theorem mapRecord_kind (definition : TypeDefinition) (f : Record → Record) :
    (definition.mapRecord f).body.kind = definition.body.kind := by
  obtain ⟨name, base, parameters, body⟩ := definition
  cases body <;> rfl

@[simp] theorem mapEnumerators_kind (definition : TypeDefinition)
    (f : List Enumerator → List Enumerator) :
    (definition.mapEnumerators f).body.kind = definition.body.kind := by
  obtain ⟨name, base, parameters, body⟩ := definition
  cases body <;> rfl

end TypeDefinition

theorem append_subset_append {α : Type u} (above below : List α) {first second : List α}
    (h : first ⊆ second) : above ++ first ++ below ⊆ above ++ second ++ below := by
  intro a ha
  simp only [List.mem_append] at ha ⊢
  exact ha.imp_left (Or.imp_right fun hmem => h hmem)

namespace Registry

variable {registry before after : Registry} {record handle : TypeHandle} {stores : Stores}

/-! ## Kinds -/

theorem kind?_modify {f : TypeDefinition → TypeDefinition}
    (hkind : ∀ definition, (f definition).body.kind = definition.body.kind) (other : TypeHandle) :
    (registry.modify handle f).kind? other = registry.kind? other := by
  rw [kind?, kind?, get?_modify]
  by_cases hsame : other = handle
  · subst hsame
    rw [if_pos rfl, Option.map_map]
    exact congrArg (fun g => Option.map g (registry.get? other)) (funext hkind)
  · rw [if_neg hsame]

theorem kind?_eq_record_iff : registry.kind? handle = some .record ↔ registry.IsRecord handle := by
  constructor
  · intro h
    obtain ⟨definition, record, hfound, hbody⟩ := exists_record_of_kind? h
    exact ⟨definition, hfound, TypeDefinition.isRecord_iff.mpr ⟨record, hbody⟩⟩
  · rintro ⟨definition, hfound, hrecord⟩
    obtain ⟨held, hbody⟩ := TypeDefinition.isRecord_iff.mp hrecord
    rw [kind?_of_get? hfound, hbody]
    rfl

@[simp] theorem kind?_modifyFields (g : List Field → List Field) (other : TypeHandle) :
    (registry.modifyFields record g).kind? other = registry.kind? other :=
  kind?_modify (fun _ => TypeDefinition.mapRecord_kind _ _) other

@[simp] theorem kind?_setBase (base : Option TypeReference) (other : TypeHandle) :
    (registry.setBase record base).kind? other = registry.kind? other :=
  kind?_modify (f := fun definition => { definition with base := base }) (fun _ => rfl) other

/-- What extends a record is a record. -/
theorem WellFormed.isRecord_of_extends (hwf : registry.WellFormed)
    (hrecord : registry.IsRecord record) (h : registry.Extends handle record) :
    registry.IsRecord handle := by
  rcases h.cases_head with rfl | ⟨base, hstep, -⟩
  · exact hrecord
  · obtain ⟨d, -, hd, -, hisRecord, -⟩ := hwf.record_of_baseOf? hstep
    exact ⟨d, hd, hisRecord⟩

/-- Two registries whose types are of the same kinds, and which differ in the fields of a family. -/
theorem WellFormed.sameButFamily (hafter : after.WellFormed)
    (hkind : ∀ handle, after.kind? handle = before.kind? handle) (hrecord : after.IsRecord record)
    (hfields : ∀ handle, ¬ after.Extends handle record →
      after.allFields handle = before.allFields handle) : SameButFamily before after record := by
  refine ⟨hafter, fun handle hout => ⟨hkind handle, ?_⟩, fun handle hextends => ?_⟩
  · rw [slots, slots, hfields handle hout]
  · have hkindAfter := kind?_eq_record_iff.mpr (hafter.isRecord_of_extends hrecord hextends)
    exact ⟨hkind handle ▸ hkindAfter, hkindAfter⟩

/-! ## Fields that come or go -/

/-- In every record of the family, all slots were there before, or all that were there are still. -/
def SlotsNested (before after : Registry) (record : TypeHandle) : Prop :=
  ∀ handle, after.Extends handle record →
    after.slots handle ⊆ before.slots handle ∨ before.slots handle ⊆ after.slots handle

/-- Where slots only come or only go, none has another type under its name. -/
theorem not_retyped_of_nested (hbefore : before.WellFormed) (hafter : after.WellFormed)
    (hnested : SlotsNested before after record) (hextends : after.Extends handle record)
    {name : String} {type : TypeReference} : ¬ Retyped before after handle name type := by
  rintro ⟨hslot, old, hold, hne⟩
  rcases hnested handle hextends with hsub | hsub
  · exact hne (hbefore.slot_unique hold (hsub hslot))
  · exact hne (hafter.slot_unique (hsub hold) hslot)

theorem SameButFamily.conformingRoot_conformRecords (hsame : SameButFamily before after record)
    (hbefore : before.WellFormed) (hnested : SlotsNested before after record)
    (h : stores.EveryRoot before.ConformingRoot) :
    (stores.conformRecords after record).2.EveryRoot after.ConformingRoot := by
  rw [Stores.conformRecords_snd]
  refine (hsame.refits_conformed hbefore).conformingRoot h ?_
  intro _ _ _ _ reference value _ hextends entries _ name type _ hretyped _
  exact absurd hretyped (not_retyped_of_nested hbefore hsame.wellFormed hnested hextends)

theorem slots_subset_of_fields (h : after.allFields handle ⊆ before.allFields handle) :
    after.slots handle ⊆ before.slots handle :=
  List.map_subset _ h

section ModifyFields

variable (g : List Field → List Field)

theorem WellFormed.sameButFamily_modifyFields (hwf : registry.WellFormed)
    (hrecord : registry.IsRecord record) (hafter : (registry.modifyFields record g).WellFormed) :
    SameButFamily registry (registry.modifyFields record g) record := by
  refine hafter.sameButFamily (kind?_modifyFields g) (isRecord_modifyFields g hrecord) ?_
  intro handle hout
  rw [extends_modifyFields] at hout
  exact hwf.allFields_modifyFields_of_not_extends g hout

/-- Where own fields only come or only go, so do the effective fields. -/
theorem WellFormed.slotsNested_modifyFields (hwf : registry.WellFormed)
    (hrecord : registry.IsRecord record)
    (hnested : g (registry.ownFields record) ⊆ registry.ownFields record ∨
      registry.ownFields record ⊆ g (registry.ownFields record)) :
    SlotsNested registry (registry.modifyFields record g) record := by
  intro handle hextends
  rw [extends_modifyFields] at hextends
  obtain ⟨above, below, hold, hnew⟩ := hwf.allFields_modifyFields g hrecord hextends
  rcases hnested with hsub | hsub
  · refine Or.inl (slots_subset_of_fields ?_)
    rw [hold, hnew]
    exact append_subset_append above below hsub
  · refine Or.inr (slots_subset_of_fields ?_)
    rw [hold, hnew]
    exact append_subset_append above below hsub

/-- Roots conform once the objects of a record have got the fields that were added to it, or lost those
that were taken from it. -/
theorem WellFormed.conformingRoot_modifyFields (hwf : registry.WellFormed)
    (hrecord : registry.IsRecord record) (hafter : (registry.modifyFields record g).WellFormed)
    (hnested : g (registry.ownFields record) ⊆ registry.ownFields record ∨
      registry.ownFields record ⊆ g (registry.ownFields record))
    (h : stores.EveryRoot registry.ConformingRoot) :
    (stores.conformRecords (registry.modifyFields record g) record).2.EveryRoot
      (registry.modifyFields record g).ConformingRoot :=
  (hwf.sameButFamily_modifyFields g hrecord hafter).conformingRoot_conformRecords hwf
    (hwf.slotsNested_modifyFields g hrecord hnested) h

end ModifyFields

/-! ## Moving a field down -/

section MoveField

variable {source target : TypeHandle} {index : Nat} {own : Field}

/-- The effective fields after a field has moved down: what extends the target keeps them all, and
what extends the source alone loses this one. -/
theorem WellFormed.allFields_moveField_perm (hwf : registry.WellFormed)
    (hsource : registry.IsRecord source) (htarget : registry.IsRecord target)
    (hindex : (registry.ownFields source)[index]? = some own)
    (hafter : after = (registry.modifyFields source fun fields =>
      fields.eraseIdx index).modifyFields target fun fields => own :: fields)
    (hextends : registry.Extends handle source) :
    (registry.Extends handle target →
        (registry.allFields handle).Perm (after.allFields handle)) ∧
      (¬ registry.Extends handle target →
        (registry.allFields handle).Perm (own :: after.allFields handle)) := by
  have herased : (registry.modifyFields source fun fields => fields.eraseIdx index).WellFormed :=
    hwf.eraseField index hsource
  obtain ⟨upper, lower, hold, hless⟩ := hwf.allFields_eraseField hsource hindex hextends
  constructor
  · intro hbelow
    rw [← extends_modifyFields fun fields => fields.eraseIdx index] at hbelow
    obtain ⟨above, below, hbefore, hnew⟩ := herased.allFields_modifyFields
      (fun fields => own :: fields) (isRecord_modifyFields _ htarget) hbelow
    have hmoved : (after.allFields handle).Perm (own :: (upper ++ lower)) := by
      rw [hafter, hnew, ← hless, hbefore]
      simp
    rw [hold]
    exact List.perm_middle.trans hmoved.symm
  · intro hout
    rw [← extends_modifyFields fun fields => fields.eraseIdx index] at hout
    rw [hafter, herased.allFields_modifyFields_of_not_extends _ hout, hless, hold]
    exact List.perm_middle

/-- The registries before and after a field has moved down. -/
theorem WellFormed.sameButFamily_moveField (hwf : registry.WellFormed)
    (hsource : registry.IsRecord source) (htarget : registry.IsRecord target)
    (hderived : registry.Extends target source)
    (hindex : (registry.ownFields source)[index]? = some own)
    (hafter : after = (registry.modifyFields source fun fields =>
      fields.eraseIdx index).modifyFields target fun fields => own :: fields) :
    SameButFamily registry after source ∧ after.Extends = registry.Extends ∧
      ∀ handle, ¬ after.Extends handle source →
        after.allFields handle = registry.allFields handle := by
  have hextends : after.Extends = registry.Extends := by
    rw [hafter, extends_modifyFields, extends_modifyFields]
  have hfields : ∀ handle, ¬ after.Extends handle source →
      after.allFields handle = registry.allFields handle := by
    intro handle hout
    rw [hextends] at hout
    have hbelow : ¬ (registry.modifyFields source fun fields =>
        fields.eraseIdx index).Extends handle target := by
      rw [extends_modifyFields]
      exact fun hbelow => hout (hbelow.trans hderived)
    rw [hafter, (hwf.eraseField index hsource).allFields_modifyFields_of_not_extends _ hbelow,
      hwf.allFields_modifyFields_of_not_extends _ hout]
  have hwfAfter : after.WellFormed :=
    hafter ▸ hwf.moveField hsource htarget hderived hindex
  refine ⟨hwfAfter.sameButFamily (fun handle => ?_) ?_ hfields, hextends, hfields⟩
  · rw [hafter, kind?_modifyFields, kind?_modifyFields]
  · exact hafter ▸ isRecord_modifyFields _ (isRecord_modifyFields _ hsource)

/-- Roots conform after a field has moved down to a record that extends the one that declared it. -/
theorem WellFormed.conformingRoot_moveField (hwf : registry.WellFormed)
    (hsource : registry.IsRecord source) (htarget : registry.IsRecord target)
    (hderived : registry.Extends target source)
    (hindex : (registry.ownFields source)[index]? = some own)
    (hafter : after = (registry.modifyFields source fun fields =>
      fields.eraseIdx index).modifyFields target fun fields => own :: fields)
    (h : stores.EveryRoot registry.ConformingRoot) :
    (stores.conformRecords after source).2.EveryRoot after.ConformingRoot := by
  obtain ⟨hsame, hextends, -⟩ :=
    hwf.sameButFamily_moveField hsource htarget hderived hindex hafter
  refine hsame.conformingRoot_conformRecords hwf (fun handle hfamily => ?_) h
  rw [hextends] at hfamily
  obtain ⟨hkept, hlost⟩ := hwf.allFields_moveField_perm hsource htarget hindex hafter hfamily
  -- no effective field is new
  refine Or.inl (slots_subset_of_fields fun field hfield => ?_)
  by_cases hbelow : registry.Extends handle target
  · exact (hkept hbelow).mem_iff.mpr hfield
  · exact (hlost hbelow).mem_iff.mpr (List.mem_cons_of_mem own hfield)

end MoveField

/-! ## Fields of the base type -/

/-- The registries before and after a record has taken over the fields of its base type. -/
theorem WellFormed.sameButFamily_flatten (hwf : registry.WellFormed) {base : TypeHandle}
    {definition : TypeDefinition} (hbase : registry.DerivesFrom record base)
    (hfound : registry.get? base = some definition)
    (hafter : after = registry.flatten record definition.fields definition.base) :
    SameButFamily registry after record ∧
      ∀ handle, after.allFields handle = registry.allFields handle := by
  obtain ⟨d, -, hd, -, hisRecord, -⟩ := hwf.record_of_baseOf? hbase
  have hwfAfter : after.WellFormed := hafter ▸ hwf.flatten hbase hfound
  have hfields : ∀ handle, after.allFields handle = registry.allFields handle :=
    fun handle => hafter ▸ hwf.allFields_flatten hbase hfound handle
  have hkind : ∀ handle, after.kind? handle = registry.kind? handle := by
    intro handle
    rw [hafter, Registry.flatten, kind?_setBase, kind?_modifyFields]
  have hrecord : after.IsRecord record := by
    rw [← kind?_eq_record_iff, hkind, kind?_eq_record_iff]
    exact ⟨d, hd, hisRecord⟩
  exact ⟨hwfAfter.sameButFamily hkind hrecord fun handle _ => hfields handle, hfields⟩

/-- Roots conform after a record has taken over the fields of its base type. -/
theorem WellFormed.conformingRoot_flatten (hwf : registry.WellFormed) {base : TypeHandle}
    {definition : TypeDefinition} (hbase : registry.DerivesFrom record base)
    (hfound : registry.get? base = some definition)
    (hafter : after = registry.flatten record definition.fields definition.base)
    (h : stores.EveryRoot registry.ConformingRoot) :
    (stores.conformRecords after record).2.EveryRoot after.ConformingRoot := by
  obtain ⟨hsame, hfields⟩ := hwf.sameButFamily_flatten hbase hfound hafter
  refine hsame.conformingRoot_conformRecords hwf (fun handle _ => ?_) h
  exact Or.inl (slots_subset_of_fields (hfields handle ▸ List.Subset.refl _))

end Registry
end LiveSchema
