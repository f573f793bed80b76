import LiveSchema.Proofs.Mutation.OwnField
import LiveSchema.Proofs.Mutation.Removal
import LiveSchema.Proofs.Reachable

/-!
# Stored values go on conforming

Every mutation but a change of the base type keeps the value of every root conforming to its type: a
mutation leaves types alike for all values there are, or it revises the values along with the types.
-/

namespace LiveSchema

namespace Registry

variable {registry before after : Registry} {record handle : TypeHandle} {stores : Stores}

/-! ## Types that stay alike -/

/-- Where all types stay alike, the roots stay as they are. -/
theorem everyRoot_of_alike (halike : ∀ handle, Alike before after handle)
    (h : stores.EveryRoot before.ConformingRoot) : stores.EveryRoot after.ConformingRoot := by
  intro store name root hroot
  exact conforms_of_alike (fun _ _ => True) (fun _ _ _ => halike _) (fun _ _ _ _ _ _ => trivial)
    root.type root.value trivial (h store name root hroot)

/-- A change of a definition that keeps its kind, base type and fields. -/
theorem WellFormed.alike_modify (hwf : registry.WellFormed) {f : TypeDefinition → TypeDefinition}
    (hkind : ∀ definition, (f definition).body.kind = definition.body.kind)
    (hbase : ∀ definition, (f definition).base = definition.base)
    (hfields : ∀ definition, (f definition).fields = definition.fields) (other : TypeHandle) :
    Alike registry (registry.modify handle f) other := by
  refine ⟨kind?_modify hkind other, ?_⟩
  rw [slots, slots, allFields_congr hwf.inheritance (baseOf?_modify hbase) fun owner _ =>
    ownFields_modify hfields owner]

theorem WellFormed.alike_modifyEnumerators (hwf : registry.WellFormed)
    (g : List Enumerator → List Enumerator) (other : TypeHandle) :
    Alike registry (registry.modifyEnumerators handle g) other :=
  hwf.alike_modify (fun _ => TypeDefinition.mapEnumerators_kind _ _)
    (fun _ => TypeDefinition.mapEnumerators_base _ _)
    (fun _ => TypeDefinition.mapEnumerators_fields _ _) other

/-- Own fields may get other flags. -/
theorem WellFormed.alike_setFieldFlags (hwf : registry.WellFormed) (index : Nat)
    (flags : FieldFlags) (hrecord : registry.IsRecord record) (other : TypeHandle) :
    Alike registry (registry.modifyFields record fun fields =>
      fields.modify index fun own => { own with flags := flags }) other := by
  refine ⟨kind?_modifyFields _ other, ?_⟩
  by_cases hextends : registry.Extends other record
  · obtain ⟨above, below, hold, hnew⟩ := hwf.allFields_modifyFields
      (fun fields => fields.modify index fun own => { own with flags := flags }) hrecord hextends
    rw [slots, slots, hold, hnew]
    simp only [List.map_append]
    rw [map_modify_of_eq]
    exact fun _ => rfl
  · rw [slots, slots, hwf.allFields_modifyFields_of_not_extends _ hextends]

/-- A new type has no values yet. -/
theorem WellFormed.conforms_declare (hwf : registry.WellFormed) {added : TypeDefinition}
    (hbase : added.base = none) (hfields : added.fields = []) {reference : TypeReference}
    {value : Json} (h : registry.conforms reference value = true) :
    (registry.declare added).conforms reference value = true := by
  refine conforms_of_alike (fun reference value => registry.conforms reference value = true)
    (fun reference value hmet => ?_) (fun _ _ _ _ hmet hinside => hinside.conforms hmet)
    reference value h h
  have hne : reference.handle ≠ registry.nextHandle := by
    intro hsame
    rw [conforms, hsame, get?_nextHandle] at hmet
    exact absurd hmet (by simp)
  refine ⟨?_, ?_⟩
  · rw [kind?, kind?, get?_declare, if_neg hne]
  · rw [slots, slots, allFields_congr hwf.inheritance (baseOf?_declare hbase)
      fun owner _ => ownFields_declare hfields owner]

/-! ## Enumerations -/

section Enumeration

variable {reference : TypeReference} {value : Json}

theorem outerFits_enumeration_iff (hkind : registry.kind? reference.handle = some .enumeration) :
    registry.OuterFits reference value ↔ value.isInteger = true := by
  obtain ⟨definition, hfound, hbody⟩ := get?_of_kind? hkind
  unfold OuterFits
  cases hheld : definition.body with
  | enumeration enumeration => simp [hfound, hheld]
  | record _ => exact absurd (hheld ▸ hbody) (by rintro ⟨⟩)
  | builtin _ => exact absurd (hheld ▸ hbody) (by rintro ⟨⟩)

/-- Values of an enumeration have nothing inside. -/
theorem parts_of_enumeration (hkind : registry.kind? reference.handle = some .enumeration)
    (value : Json) : registry.parts reference value = .none := by
  obtain ⟨definition, hfound, hbody⟩ := get?_of_kind? hkind
  rw [parts, hfound]
  cases hheld : definition.body with
  | enumeration enumeration => simp only [hheld]
  | record _ => exact absurd (hheld ▸ hbody) (by rintro ⟨⟩)
  | builtin _ => exact absurd (hheld ▸ hbody) (by rintro ⟨⟩)

theorem not_inside_enumeration (hkind : registry.kind? reference.handle = some .enumeration)
    {type : TypeReference} {inner : Json} : ¬ registry.Inside reference value type inner := by
  rintro ⟨child, hchild, -⟩
  rw [childValues, parts_of_enumeration hkind] at hchild
  exact absurd hchild List.not_mem_nil

theorem conforms_enumeration_iff (hkind : registry.kind? reference.handle = some .enumeration) :
    registry.conforms reference value = true ↔ value.isInteger = true := by
  rw [conforms_iff_inside, outerFits_enumeration_iff hkind]
  exact and_iff_left fun type inner hinside => absurd hinside (not_inside_enumeration hkind)

theorem isInteger_renumberedValue {mapping : List (Int64 × Int64)}
    {removed : Option (Int64 × Int64)} (h : value.isInteger = true) :
    (Stores.renumberedValue mapping removed value).isInteger = true := by
  unfold Stores.renumberedValue
  split
  · split
    · exact h
    · rw [Json.ofInt_toInt]
      rfl
  · exact h

/-- Other numbers for the values of an enumeration fit them to it. -/
theorem refits_renumber {enumeration : TypeHandle} {mapping : List (Int64 × Int64)}
    {removed : Option (Int64 × Int64)} (hafter : after.WellFormed)
    (halike : ∀ handle, Alike before after handle)
    (hkind : after.kind? enumeration = some .enumeration) :
    Refits before after
      (whereConcerned (fun type => type.handle = enumeration) fun _ =>
        Stores.renumberedValue mapping removed)
      (fun _ _ _ _ => False) fun _ _ => True := by
  refine ⟨hafter.names, ?_, ?_, ?_, fun _ _ _ _ _ hfalse _ => hfalse.elim⟩
  · intro reference value hconforms
    unfold whereConcerned
    by_cases hsame : reference.handle = enumeration
    · simp only [hsame, decide_true, if_true]
      have hkind' := hsame ▸ hkind
      rw [conforms_enumeration_iff hkind'] at hconforms ⊢
      exact isInteger_renumberedValue hconforms
    · simpa [hsame] using hconforms
  · intro reference value hconforms
    have houter := (halike reference.handle).outerFits (conforms_iff.mp hconforms).1
    unfold whereConcerned
    by_cases hsame : reference.handle = enumeration
    · simp only [hsame, decide_true, if_true]
      have hkind' := hsame ▸ hkind
      rw [outerFits_enumeration_iff hkind'] at houter ⊢
      exact isInteger_renumberedValue houter
    · simpa [hsame] using houter
  · intro reference value type inner hconforms hinside
    by_cases hsame : reference.handle = enumeration
    · exact absurd hinside (not_inside_enumeration (hsame ▸ hkind))
    · simp only [whereConcerned, hsame, decide_false, Bool.false_eq_true, if_false] at hinside
      exact Or.inr (Or.inl ((halike reference.handle).symm.inside hinside))

end Enumeration

end Registry

/-! ## Every mutation -/

namespace Content

variable {content after : Content} {handle : TypeHandle}

theorem root?_initial (store name : String) : initial.stores.root? store name = none := by
  rw [initial, Stores.root?_insert]
  split <;> rfl

theorem conforms_initial : initial.Conforms := by
  intro store name root hroot
  rw [root?_initial] at hroot
  exact absurd hroot (by simp)

/-- Stored values follow the numbers of an enumeration. -/
theorem Renumbered.conforms (hrenumbered : content.Renumbered handle after)
    (hwf : content.registry.WellFormed) (h : content.Conforms) : after.Conforms := by
  obtain ⟨definition, enumeration, hfound, hbody, g, registry, mapping, removed, -, rfl, rfl⟩ :=
    hrenumbered
  unfold Conforms
  rw [Stores.renumber_snd]
  have hkind : content.registry.kind? handle = some .enumeration := by
    rw [Registry.kind?_of_get? hfound, hbody]
    rfl
  refine (Registry.refits_renumber ?_ (hwf.alike_modifyEnumerators g) ?_).conformingRoot_of_certain h
  · exact hwf.modifyEnumerators g hfound (TypeDefinition.isBuiltin_of_enumeration hbody)
  · rw [(hwf.alike_modifyEnumerators g handle).kind, hkind]

end Content

namespace Mutation

/-- The mutation sets or removes the base type of a record. -/
def SetsBase : Mutation → Prop
  | .setRecordBaseType _ _ => True
  | _ => False

open Registry in
/-- A mutation that is not refused and sets no base type keeps all roots conforming. -/
theorem conforms_carryOut {content : Content} {mutation : Mutation} {change : Change}
    (hwf : content.registry.WellFormed) (hconforms : content.Conforms)
    (hother : ¬ mutation.SetsBase) (h : mutation.carryOut content = .ok change) :
    change.content.Conforms := by
  have hwfAfter := wellFormed_carryOut hwf h
  cases mutation with
  | addStruct | addClass | addEnum =>
      obtain ⟨-, hcontent⟩ := Content.addType_ok h
      rw [hcontent]
      exact fun store name root hroot =>
        hwf.conforms_declare rfl rfl (hconforms store name root hroot)
  | setTypeName type name =>
      obtain ⟨-, -, -, hcontent⟩ := Content.setTypeName_ok h
      rw [hcontent]
      exact everyRoot_of_alike
        (hwf.alike_modify (f := fun definition => { definition with name := name })
          (fun _ => rfl) (fun _ => rfl) fun _ => rfl) hconforms
  | setRecordBaseType record base => exact absurd trivial hother
  | setRecordTable record enabled =>
      obtain ⟨-, flags, -, hcontent⟩ := Content.setRecordTable_ok h
      rw [hcontent]
      refine everyRoot_of_alike (hwf.alike_modify (fun _ => TypeDefinition.mapRecord_kind _ _)
        (fun _ => TypeDefinition.mapRecord_base _ _) ?_) hconforms
      rintro ⟨_, _, _, body⟩
      cases body <;> rfl
  | deleteType type =>
      obtain ⟨⟨definition, hfound, huser⟩, hfree, hcontent⟩ := Content.deleteType_ok h
      have hunused := Content.unused_of_usages hwf.toFormed hfree
      rw [hcontent]
      intro store name root hroot
      rw [Content.root?_removeRoots] at hroot
      split at hroot
      next => exact absurd hroot (by simp)
      next hkept =>
          refine hwf.conforms_remove hunused hfound huser ?_ (hconforms store name root hroot)
          by_contra hcontains
          rw [Bool.not_eq_false] at hcontains
          exact hkept (Content.mem_dataRoots.mpr ⟨_, hroot, hcontains⟩)
  | addField record =>
      obtain ⟨hrecord, registry, rfl, hcontent⟩ := Content.addField_ok h
      rw [hcontent] at hwfAfter ⊢
      exact hwf.conformingRoot_modifyFields _ hrecord hwfAfter
        (Or.inr (List.subset_append_left _ _)) hconforms
  | setFieldName record field name =>
      obtain ⟨index, own, registry, hindex, rfl, hcheck, hregistry, hcontent⟩ :=
        Content.setFieldName_ok h
      obtain ⟨hrecord, -⟩ := Legality.checkFieldName_eq_ok.mp hcheck
      rw [hcontent] at hwfAfter ⊢
      unfold Content.Conforms
      rw [Stores.renameField_snd]
      exact (hwf.refits_renameField hrecord hindex hregistry hwfAfter).conformingRoot_of_certain
        hconforms
  | setFieldType record field type =>
      obtain ⟨index, own, registry, hindex, rfl, hcheck, hregistry, hcontent⟩ :=
        Content.setFieldType_ok h
      obtain ⟨hrecord, -⟩ := Legality.checkFieldType_eq_ok.mp hcheck
      rw [hcontent] at hwfAfter ⊢
      unfold Content.Conforms
      rw [Stores.convertField_snd]
      exact (hwf.refits_convertField hrecord hindex hregistry hwfAfter).conformingRoot_of_certain
        hconforms
  | setFieldFlags record field flags =>
      obtain ⟨hrecord, index, own, -, -, hcontent⟩ := Content.setFieldFlags_ok h
      rw [hcontent]
      exact everyRoot_of_alike (hwf.alike_setFieldFlags index flags hrecord) hconforms
  | swapFields record first second =>
      obtain ⟨hrecord, registry, rfl, hcontent⟩ := Content.swapFields_ok h
      rw [hcontent] at hwfAfter ⊢
      exact hwf.conformingRoot_modifyFields _ hrecord hwfAfter
        (Or.inl (exchange_perm _ first second).subset) hconforms
  | moveField source field target =>
      obtain ⟨hsource, htarget, hderived, index, own, registry, hindex, -, -, hregistry, hcontent,
        -⟩ := Content.moveField_checked h
      rw [isStrictAncestor, Bool.and_eq_true, isParentOf_iff] at hderived
      rw [hcontent]
      exact hwf.conformingRoot_moveField hsource htarget hderived.2 hindex hregistry hconforms
  | flattenBase record =>
      obtain ⟨base, definition, ofBase, registry, hbase, hfound, hbody, hregistry, hcontent⟩ :=
        Content.flattenBase_ok h
      have hfields : definition.fields = ofBase.fields := by simp [TypeDefinition.fields, hbody]
      rw [hcontent]
      exact hwf.conformingRoot_flatten hbase hfound (hfields ▸ hregistry) hconforms
  | deleteField record field =>
      obtain ⟨hrecord, index, own, registry, -, -, rfl, hcontent, -⟩ :=
        Content.deleteField_checked h
      rw [hcontent] at hwfAfter ⊢
      exact hwf.conformingRoot_modifyFields _ hrecord hwfAfter
        (Or.inl (List.eraseIdx_sublist _ index).subset) hconforms
  | addEnumerator enumeration =>
      obtain ⟨definition, held, -, -, hcontent⟩ := Content.addEnumerator_ok h
      rw [hcontent]
      exact everyRoot_of_alike (hwf.alike_modifyEnumerators _) hconforms
  | setEnumeratorName enumeration index name =>
      obtain ⟨definition, held, -, -, -, hcontent⟩ := Content.setEnumeratorName_ok h
      rw [hcontent]
      exact everyRoot_of_alike (hwf.alike_modifyEnumerators _) hconforms
  | setEnumeratorValue enumeration index value =>
      exact (Content.setEnumeratorValue_ok h).conforms hwf hconforms
  | deleteEnumerator enumeration index =>
      exact (Content.deleteEnumerator_ok h).conforms hwf hconforms
  | addStore store =>
      obtain ⟨-, -, hcontent⟩ := Content.addStore_ok h
      rw [hcontent]
      exact hconforms.insert fun name root hroot => absurd hroot (by simp)
  | addRoot store root type =>
      obtain ⟨kept, hkept, -, -, hlegal, hcontent⟩ := Content.addRoot_ok h
      rw [hcontent]
      exact hconforms.insertRoot hkept (hwf.conforms_defaultValue hlegal)
  | setRootValue store root value =>
      obtain ⟨kept, previous, hkept, -, hfits, hcontent⟩ := Content.setRootValue_ok h
      rw [hcontent]
      exact hconforms.insertRoot hkept hfits
  | deleteRoot store root =>
      obtain ⟨kept, removed, hkept, -, hcontent⟩ := Content.deleteRoot_ok h
      rw [hcontent]
      exact hconforms.eraseRoot hkept

end Mutation

namespace Database

variable {digest : String → String} {database : Database}

/-- Without roots there is nothing that would have to conform. -/
theorem HasOnlyTypes.conforms {registry : Registry} (h : database.HasOnlyTypes registry) :
    database.content.Conforms := by
  intro store name root hroot
  rw [show database.content = _ from h, Content.withRegistry, Content.root?_initial] at hroot
  exact absurd hroot (by simp)

/-- A mutation that sets no base type keeps roots conforming wherever the registry is well-formed. -/
theorem conforms_apply (hwf : database.content.registry.WellFormed)
    (hconforms : database.content.Conforms) (time : Timestamp) (files : Directory)
    {mutation : Mutation} (hother : ¬ mutation.SetsBase) :
    (database.apply digest time files mutation).database.content.Conforms := by
  rcases apply_content_cases digest database time files mutation with
    ⟨_, -, hsame⟩ | ⟨change, hchange, hcontent⟩
  · rwa [hsame]
  · rw [hcontent]
    exact Mutation.conforms_carryOut hwf hconforms hother hchange

theorem HasOnlyTypes.conforms_apply {registry : Registry} (h : database.HasOnlyTypes registry)
    (hreachable : Reachable digest database) (time : Timestamp) (files : Directory)
    {mutation : Mutation} (hother : ¬ mutation.SetsBase) :
    (database.apply digest time files mutation).database.content.Conforms :=
  Database.conforms_apply hreachable.wellFormed h.conforms time files hother

theorem HasOnlyTypes.conforms_concat {registry : Registry} {mutations : List Mutation}
    {mutation : Mutation} (h : (ofMutations mutations).HasOnlyTypes registry)
    (hother : ¬ mutation.SetsBase) : (ofMutations (mutations ++ [mutation])).content.Conforms := by
  rw [ofMutations_concat]
  exact h.conforms_apply (reachable_ofMutations _) ⟨0, 0⟩ NameMap.empty hother

/-- In every database that can be reached, a mutation that does not set a base type keeps the value of
every root conforming to its type, whether it is carried out or refused. -/
theorem conforms_apply_of_reachable (hreachable : Reachable digest database)
    (hconforms : database.content.Conforms) (time : Timestamp) (files : Directory)
    (mutation : Mutation) (hother : ¬ mutation.SetsBase) :
    (database.apply digest time files mutation).database.content.Conforms :=
  conforms_apply hreachable.wellFormed hconforms time files hother

/-- A struct with a root of its type gets a field. -/
theorem conforms_apply_of_struct_with_root :
    (((inMemory.apply id ⟨0, 0⟩ NameMap.empty .addStruct).database.apply id ⟨1, 0⟩ NameMap.empty
      (.addRoot "main" "root" (.plain ⟨37⟩))).database.apply id ⟨2, 0⟩ NameMap.empty
        (.addField ⟨37⟩)).database.content.Conforms := by
  have hfresh : Reachable id inMemory := .fresh
  have hstruct := conforms_apply_of_reachable hfresh Content.conforms_initial ⟨0, 0⟩
    NameMap.empty .addStruct id
  have hstructReachable := hfresh.step ⟨0, 0⟩ NameMap.empty .addStruct
  have hroot := conforms_apply_of_reachable hstructReachable hstruct ⟨1, 0⟩ NameMap.empty
    (.addRoot "main" "root" (.plain ⟨37⟩)) id
  exact conforms_apply_of_reachable (hstructReachable.step ⟨1, 0⟩ NameMap.empty
    (.addRoot "main" "root" (.plain ⟨37⟩))) hroot ⟨2, 0⟩ NameMap.empty (.addField ⟨37⟩) id

end Database
end LiveSchema
