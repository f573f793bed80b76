import LiveSchema.Proofs.Mutation.Losing
import LiveSchema.Proofs.Mutation.Retyping
import LiveSchema.Proofs.Value.Leaves

/-!
# Values that the log keeps

A mutation that keeps values in the log has gone through the objects of a record and of everything that
extends it.  It keeps a value under the place at which the walk has met the object.  The walk leaves
every object an object, so the places that it meets are places of the stores that it leaves behind.
-/

namespace LiveSchema

/-- What a step makes of an object does not depend on the place, and each backup has this place. -/
structure Stores.KeepsAtPlace (step : Place → TypeHandle → Entries → Entries × List Backup)
    (g : TypeHandle → Entries → Entries) : Prop where
  entries : ∀ place type entries, (step place type entries).1 = g type entries
  places : ∀ place type entries, ∀ backup ∈ (step place type entries).2, backup.place = place

theorem Stores.keepsAtPlace_conformingAt (registry : Registry) :
    KeepsAtPlace (conformingAt registry) registry.conformed := by
  refine ⟨fun _ _ _ => rfl, fun place type entries backup hbackup => ?_⟩
  obtain ⟨entry, -, rfl⟩ := List.mem_map.mp hbackup
  rfl

theorem Stores.keepsAtPlace_conversionAt (registry : Registry) (name : String)
    (source target : TypeReference) :
    KeepsAtPlace (conversionAt registry name source target)
      fun _ => convertedEntries registry name source target := by
  refine ⟨fun _ _ _ => rfl, fun place type entries backup hbackup => ?_⟩
  simp only [conversionAt] at hbackup
  split at hbackup
  · exact absurd hbackup List.not_mem_nil
  · rw [List.mem_singleton.mp hbackup]

/-- The change takes its step at the objects of a family, and its record says what was kept. -/
def Change.Keeps (content : Content) (change : Change) : Prop :=
  ∃ record step g, Stores.KeepsAtPlace step g ∧
    change.content.stores =
      (content.stores.tallyRecords change.content.registry record step).2 ∧
    change.Reports (content.stores.tallyRecords change.content.registry record step).1

theorem Change.keeps_of_conformRecords {content : Content} {change : Change} {record : TypeHandle}
    {registry : Registry}
    (hcontent : change.content = ⟨registry, (content.stores.conformRecords registry record).2⟩)
    (hreports : change.Reports (content.stores.conformRecords registry record).1) :
    change.Keeps content := by
  refine ⟨record, _, _, Stores.keepsAtPlace_conformingAt registry, ?_, ?_⟩
  · rw [hcontent]
    rfl
  · rw [hcontent]
    exact hreports

/-- A mutation keeps what its step at the objects of a family has to give up, or it keeps nothing. -/
theorem Mutation.keeps_or_backup_eq_none {content : Content} {mutation : Mutation} {change : Change}
    (h : mutation.carryOut content = .ok change) :
    Entries.value? change.params "backup" = none ∨ change.Keeps content := by
  cases mutation with
  | addStruct | addClass | addEnum =>
      simp only [carryOut, Content.addType] at h
      split at h
      · exact absurd h (by simp)
      · obtain rfl := Except.ok.inj h
        exact Or.inl rfl
  | setTypeName type name =>
      simp only [carryOut, Content.setTypeName, bind_eq_ok, pure_eq_ok] at h
      obtain ⟨-, -, -, -, rfl⟩ := h
      exact Or.inl rfl
  | setRecordTable record enabled =>
      simp only [carryOut, Content.setRecordTable, bind_eq_ok, pure_eq_ok] at h
      obtain ⟨-, -, -, -, rfl⟩ := h
      exact Or.inl rfl
  | deleteType type =>
      simp only [carryOut, Content.deleteType, bind_eq_ok] at h
      obtain ⟨_, -, hrest⟩ := h
      split at hrest
      · exact absurd hrest (by simp [bind, Except.bind])
      · obtain rfl := pure_eq_ok.mp hrest
        exact Or.inl rfl
  | addField record =>
      simp only [carryOut, Content.addField, bind_eq_ok, pure_eq_ok] at h
      obtain ⟨-, -, rfl⟩ := h
      exact Or.inl rfl
  | setFieldName record field name =>
      simp only [carryOut, Content.setFieldName, bind_eq_ok, pure_eq_ok, Prod.exists] at h
      obtain ⟨-, -, -, -, -, rfl⟩ := h
      exact Or.inl rfl
  | setFieldFlags record field flags =>
      simp only [carryOut, Content.setFieldFlags, bind_eq_ok, pure_eq_ok, Prod.exists] at h
      obtain ⟨-, -, -, -, -, rfl⟩ := h
      exact Or.inl rfl
  | swapFields record first second =>
      simp only [carryOut, Content.swapFields, bind_eq_ok] at h
      obtain ⟨_, -, hrest⟩ := h
      split at hrest
      · exact absurd hrest refuse_ne_ok
      · obtain rfl := pure_eq_ok.mp hrest
        exact Or.inl rfl
  | flattenBase record =>
      simp only [carryOut, Content.flattenBase, bind_eq_ok] at h
      obtain ⟨_, -, hrest⟩ := h
      split at hrest
      · exact absurd hrest refuse_ne_ok
      · simp only [bind_eq_ok] at hrest
        obtain ⟨_, -, _, -, hrest⟩ := hrest
        split at hrest
        · exact absurd hrest (by simp)
        · simp only [bind_eq_ok, pure_eq_ok] at hrest
          obtain ⟨-, -, rfl⟩ := hrest
          exact Or.inl rfl
  | addEnumerator enumeration =>
      simp only [carryOut, Content.addEnumerator, bind_eq_ok, pure_eq_ok, Prod.exists] at h
      obtain ⟨-, -, -, rfl⟩ := h
      exact Or.inl rfl
  | setEnumeratorName enumeration index name =>
      simp only [carryOut, Content.setEnumeratorName, bind_eq_ok, pure_eq_ok, Prod.exists] at h
      obtain ⟨-, -, -, -, -, -, rfl⟩ := h
      exact Or.inl rfl
  | setEnumeratorValue enumeration index value =>
      simp only [carryOut, Content.setEnumeratorValue, bind_eq_ok, pure_eq_ok, Prod.exists] at h
      obtain ⟨-, -, -, -, rfl⟩ := h
      exact Or.inl rfl
  | deleteEnumerator enumeration index =>
      simp only [carryOut, Content.deleteEnumerator, bind_eq_ok, pure_eq_ok, Prod.exists] at h
      obtain ⟨-, -, -, -, rfl⟩ := h
      exact Or.inl rfl
  | addStore store =>
      simp only [carryOut, Content.addStore, bind_eq_ok, refuse_if_eq_ok, pure_eq_ok] at h
      obtain ⟨-, -, -, rfl⟩ := h
      exact Or.inl rfl
  | addRoot store root type =>
      simp only [carryOut, Content.addRoot, bind_eq_ok, refuse_if_eq_ok, pure_eq_ok] at h
      obtain ⟨-, -, -, -, -, -, -, -, -, rfl⟩ := h
      exact Or.inl rfl
  | setRootValue store root value =>
      simp only [carryOut, Content.setRootValue, bind_eq_ok, refuse_if_eq_ok, pure_eq_ok,
        Prod.exists] at h
      obtain ⟨-, -, -, -, rfl⟩ := h
      exact Or.inl rfl
  | deleteRoot store root =>
      simp only [carryOut, Content.deleteRoot, bind_eq_ok, pure_eq_ok, Prod.exists] at h
      obtain ⟨-, -, -, rfl⟩ := h
      exact Or.inl rfl
  | setRecordBaseType record base =>
      exact Or.inr (Change.keeps_of_conformRecords (Content.setRecordBaseType_ok h).2
        (Content.setRecordBaseType_reports h))
  | setFieldType record field type =>
      obtain ⟨index, own, registry, -, -, -, -, -, hcontent, hreports⟩ :=
        Content.setFieldType_checked h
      refine Or.inr ⟨record, _, _,
        Stores.keepsAtPlace_conversionAt registry field own.type type, ?_, ?_⟩
      · rw [hcontent]
        rfl
      · rw [hcontent]
        exact hreports
  | moveField source field target =>
      obtain ⟨-, -, -, index, own, registry, -, -, -, -, hcontent, hreports⟩ :=
        Content.moveField_checked h
      exact Or.inr (Change.keeps_of_conformRecords hcontent hreports)
  | deleteField record field =>
      obtain ⟨-, index, own, registry, -, -, -, hcontent, hreports⟩ := Content.deleteField_checked h
      exact Or.inr (Change.keeps_of_conformRecords hcontent hreports)

/-! ## Places of the stores -/

namespace Registry

variable {registry : Registry} {reference : TypeReference} {value : Json}
  {f : TypeReference → Json → Json}

section NullKept

variable (hnames : ∀ handle, (registry.allFieldNames handle).Nodup)
  (hnull : ∀ type inner, (f type inner).isNull = inner.isNull)

include hnull in
theorem isNull_mapWithin (levels : Nat) (reference : TypeReference) (value : Json) :
    (registry.mapWithin f levels reference value).isNull = value.isNull := by
  induction levels generalizing reference value with
  | zero => rfl
  | succ levels ih =>
      rw [mapWithin]
      exact isNull_mapChildren fun child _ => (ih _ _).trans (hnull _ _)

include hnames hnull in
/-- A walk that leaves null what is null, and nothing else, meets values at paths that lead into what it
makes. -/
theorem exists_mem_reached_of_mem_metWithin {levels : Nat} {visit : Visit}
    (h : visit ∈ registry.metWithin f levels reference value) :
    ∃ kept ∈ registry.reached noBarrier reference (registry.mapWithin f levels reference value),
      kept.path = visit.path := by
  induction levels generalizing reference value visit with
  | zero => exact absurd h List.not_mem_nil
  | succ levels ih =>
      have hchildren : registry.childValues reference
          (registry.mapWithin f (levels + 1) reference value) =
            (registry.childValues reference value).map (Child.answer fun type inner =>
              registry.mapWithin f levels type (f type inner)) := by
        refine (childValues_mapChildren (hnames _)).resolve_right ?_
        rintro ⟨-, child, -, hnotNull, hisNull⟩
        rw [isNull_mapWithin hnull, hnull, hnotNull] at hisNull
        exact absurd hisNull (by simp)
      rw [metWithin] at h
      obtain ⟨child, hchild, hmet⟩ := List.mem_flatMap.mp h
      obtain ⟨inner, hinner, rfl⟩ := List.mem_map.mp hmet
      obtain ⟨kept, hkept, hpath⟩ : ∃ kept ∈ registry.reached noBarrier child.type
          (registry.mapWithin f levels child.type (f child.type child.value)),
            kept.path = inner.path := by
        rcases List.mem_cons.mp hinner with rfl | hinner
        · exact ⟨_, mem_reached.mpr (Or.inl rfl), rfl⟩
        · exact ih hinner
      have hanswer := List.mem_map_of_mem (f := Child.answer fun type inner =>
        registry.mapWithin f levels type (f type inner)) hchild
      rw [← hchildren, ← openChildren_noBarrier] at hanswer
      refine ⟨_, mem_reached.mpr (Or.inr ⟨_, hanswer, kept, hkept, rfl⟩), ?_⟩
      simp only [Visit.under, hpath, Child.answer]

end NullKept

theorem isNull_reviseFamily (record : TypeHandle) (g : TypeHandle → Entries → Entries)
    (type : TypeReference) (inner : Json) :
    (registry.reviseFamily record g type inner).isNull = inner.isNull := by
  unfold reviseFamily whereConcerned
  split
  · cases inner <;> rfl
  · rfl

end Registry

/-- The places of the roots and of everything inside them. -/
def Content.positions (content : Content) : List Place :=
  (content.stores.sites fun root =>
    content.registry.reached noBarrier root.type root.value).map Site.place

theorem Content.mem_positions {content : Content} {place : Place} :
    place ∈ content.positions ↔ ∃ root, content.stores.root? place.store place.root = some root ∧
      ∃ visit ∈ content.registry.reached noBarrier root.type root.value,
        visit.path = place.path := by
  constructor
  · intro h
    obtain ⟨site, hsite, rfl⟩ := List.mem_map.mp h
    obtain ⟨root, hroot, hvisit⟩ := Stores.mem_sites.mp hsite
    exact ⟨root, hroot, _, hvisit, rfl⟩
  · rintro ⟨root, hroot, visit, hvisit, hpath⟩
    refine List.mem_map.mpr ⟨⟨place, visit.type, visit.value⟩, ?_, rfl⟩
    exact Stores.mem_sites.mpr ⟨root, hroot, hpath ▸ hvisit⟩

/-- What a change keeps is kept under places of the stores that it leaves behind. -/
theorem Change.Keeps.exists_backups {content : Content} {change : Change} (h : change.Keeps content)
    (hnames : ∀ handle, (change.content.registry.allFieldNames handle).Nodup) :
    ∃ backups : List Backup,
      Entries.value? change.params "backup" = some (.array (backups.map Backup.toJson)) ∧
        ∀ backup ∈ backups, backup.place ∈ change.content.positions := by
  obtain ⟨record, step, g, hstep, hstores, hreports⟩ := h
  refine ⟨_, hreports.backup, fun backup hbackup => ?_⟩
  rw [(Stores.tallyRecords_fst content.stores record hstep.entries hnames).2] at hbackup
  obtain ⟨site, hsite, hbackup⟩ := List.mem_flatMap.mp hbackup
  have hplace : backup.place = site.place := by
    unfold Stores.backupsAt at hbackup
    split at hbackup
    · exact hstep.places _ _ _ backup hbackup
    · exact absurd hbackup List.not_mem_nil
  obtain ⟨root, hroot, hvisit⟩ := Stores.mem_sites.mp hsite
  have hmet := (List.mem_filter.mp hvisit).1
  rw [hplace, Content.mem_positions, hstores, Stores.tallyRecords_snd hstep.entries,
    Stores.root?_revised, hroot]
  refine ⟨_, rfl, ?_⟩
  rcases List.mem_cons.mp hmet with hhere | hinside
  · exact ⟨_, Registry.mem_reached.mpr (Or.inl rfl), (congrArg Visit.path hhere).symm⟩
  · exact Registry.exists_mem_reached_of_mem_metWithin hnames
      (Registry.isNull_reviseFamily record g) hinside

end LiveSchema
