import LiveSchema.Proofs.Document.Schema
import LiveSchema.Proofs.Mutation.Steps
import LiveSchema.Proofs.NameMap
import LiveSchema.Proofs.Value.WalkKeys

/-!
# Mutations keep keys distinct

If no stored value repeats a key, and none that a mutation brings in, then no stored value does after
the mutation, nor does what the mutation has to say for the change log.
-/

namespace LiveSchema

universe u

variable {σ : Type u} {Sound : σ → Prop} {registry : Registry} {stores : Stores} {record : TypeHandle}

/-! ## Migrations -/

/-- No object in the value of the root repeats a key. -/
def Root.HasDistinctKeys (root : Root) : Prop :=
  root.value.HasDistinctKeys

/-- Handed a sound state and a value without repeated keys, the migration answers the same. -/
def Migration.Keeps (Sound : σ → Prop) (migration : Migration σ) : Prop :=
  ∀ state place type value, Sound state → value.HasDistinctKeys →
    Sound (migration state place type value).1 ∧
      (migration state place type value).2.HasDistinctKeys

theorem Root.migrate_keeps {concerned : TypeReference → Bool}
    {migration : σ → ValuePath → TypeReference → Json → σ × Json}
    (hmigration : ∀ state path type value, Sound state → value.HasDistinctKeys →
      Sound (migration state path type value).1 ∧
        (migration state path type value).2.HasDistinctKeys)
    {state : σ} {root : Root} (hstate : Sound state) (hroot : root.HasDistinctKeys) :
    Sound (root.migrate registry concerned migration state).1 ∧
      (root.migrate registry concerned migration state).2.HasDistinctKeys := by
  have hstep : Step.Keeps Sound (fun state type path value =>
      if concerned type then
        ⟨(migration state path type value).1, (migration state path type value).2, false⟩
      else ⟨state, value, false⟩ : Step σ) := by
    intro state type path value hstate hvalue
    dsimp only
    split
    · exact hmigration state path type value hstate hvalue
    · exact ⟨hstate, hvalue⟩
  unfold migrate
  split
  next next value hfirst =>
      have hanswer : Sound next ∧ value.HasDistinctKeys := by
        split at hfirst
        · have hkept := hmigration state .root root.type root.value hstate hroot
          rwa [hfirst] at hkept
        · obtain ⟨rfl, rfl⟩ := Prod.mk.inj hfirst
          exact ⟨hstate, hroot⟩
      exact Registry.revise_keeps hstep _ root.type hanswer.1 hanswer.2

namespace Stores

theorem migrate_keeps {concerned : TypeReference → Bool} {migration : Migration σ}
    (hmigration : Migration.Keeps Sound migration) {state : σ} (hstate : Sound state)
    (hstores : stores.EveryRoot Root.HasDistinctKeys) :
    Sound (stores.migrate registry concerned migration state).1 ∧
      (stores.migrate registry concerned migration state).2.EveryRoot Root.HasDistinctKeys := by
  rw [everyRoot_iff] at hstores ⊢
  refine NameMap.mapFrom_keeps (fun state store kept hstate hkept => ?_) hstate hstores
  refine NameMap.mapFrom_keeps (fun state root value hstate hvalue => ?_) hstate hkept
  exact Root.migrate_keeps (fun state path => hmigration state ⟨store, root, path⟩) hstate hvalue

end Stores

/-! ## Tallies -/

/-- No object that is kept in a backup repeats a key. -/
def Tally.HasDistinctKeys (tally : Tally) : Prop :=
  ∀ backup ∈ tally.backups, backup.value.HasDistinctKeys

theorem Backup.hasDistinctKeys_toJson {backup : Backup} (h : backup.value.HasDistinctKeys) :
    backup.toJson.HasDistinctKeys := by
  rw [toJson, Json.hasDistinctKeys_object]
  constructor
  · cases backup.field <;> simp [Entries.keys]
  · cases backup.field <;> simp [h]

theorem Tally.HasDistinctKeys.backupJson {tally : Tally} (h : tally.HasDistinctKeys) :
    tally.backupJson.HasDistinctKeys := by
  refine Json.hasDistinctKeys_array.mpr fun item hitem => ?_
  obtain ⟨backup, hbackup, rfl⟩ := List.mem_map.mp hitem
  exact Backup.hasDistinctKeys_toJson (h backup (List.mem_reverse.mp hbackup))

theorem Tally.HasDistinctKeys.add {tally : Tally} (h : tally.HasDistinctKeys)
    {backups : List Backup} (hbackups : ∀ backup ∈ backups, backup.value.HasDistinctKeys) :
    (tally.add backups).HasDistinctKeys := by
  intro backup hbackup
  rcases List.mem_append.mp hbackup with hadded | hold
  · exact hbackups backup (List.mem_reverse.mp hadded)
  · exact h backup hold

namespace Stores

open Json

variable (hstores : stores.EveryRoot Root.HasDistinctKeys)
include hstores

theorem tallyRecords_keeps {change : Place → TypeHandle → Entries → Entries × List Backup}
    (hchange : ∀ place type entries, (object entries).HasDistinctKeys →
      (object (change place type entries).1).HasDistinctKeys ∧
        ∀ backup ∈ (change place type entries).2, backup.value.HasDistinctKeys) :
    (stores.tallyRecords registry record change).1.HasDistinctKeys ∧
      (stores.tallyRecords registry record change).2.EveryRoot Root.HasDistinctKeys := by
  refine migrate_keeps (fun tally place type value htally hvalue => ?_)
    (fun _ hbackup => absurd hbackup List.not_mem_nil) hstores
  cases value with
  | object entries =>
      obtain ⟨hentries, hbackups⟩ := hchange place type.handle entries hvalue
      exact ⟨htally.add hbackups, hentries⟩
  | _ => exact ⟨htally.add (fun _ hbackup => absurd hbackup List.not_mem_nil), hvalue⟩

theorem conformRecords_keeps (registry : Registry) (record : TypeHandle) :
    (stores.conformRecords registry record).1.HasDistinctKeys ∧
      (stores.conformRecords registry record).2.EveryRoot Root.HasDistinctKeys := by
  refine tallyRecords_keeps hstores fun place type entries hentries => ?_
  obtain ⟨hconformed, hleft⟩ := registry.hasDistinctKeys_conform hentries type
  refine ⟨hconformed, fun backup hbackup => ?_⟩
  obtain ⟨entry, hentry, rfl⟩ := List.mem_map.mp hbackup
  exact (hasDistinctKeys_object.mp hleft).2 entry hentry

theorem renameField_keeps (source target : String) :
    (stores.renameField registry record source target).2.EveryRoot Root.HasDistinctKeys :=
  (tallyRecords_keeps hstores fun _ _ _ hentries =>
    ⟨Entries.hasDistinctKeys_renameKey hentries source target, by simp⟩).2

theorem convertField_keeps (registry : Registry) (record : TypeHandle) (name : String)
    (source target : TypeReference) :
    (stores.convertField registry record name source target).1.HasDistinctKeys ∧
      (stores.convertField registry record name source target).2.EveryRoot
        Root.HasDistinctKeys := by
  refine tallyRecords_keeps hstores fun place type entries hentries => ?_
  have hbefore : ((Entries.value? entries name).getD
      (registry.defaultValue source)).HasDistinctKeys := by
    cases hvalue : Entries.value? entries name with
    | none => exact Registry.hasDistinctKeys_defaultValue registry source
    | some value => exact Entries.hasDistinctKeys_of_value? hentries hvalue
  refine ⟨Entries.hasDistinctKeys_assign hentries
    (registry.hasDistinctKeys_convert source target hbefore) name, ?_⟩
  dsimp only
  split
  · simp
  · simpa using hbefore

theorem renumber_keeps (enumeration : TypeHandle) (mapping : List (Int64 × Int64))
    (removed : Option (Int64 × Int64)) :
    (stores.renumber registry enumeration mapping removed).2.EveryRoot Root.HasDistinctKeys := by
  refine (@migrate_keeps Nat (fun _ => True) registry stores _ _
    (fun changed place type value _ hvalue => ⟨trivial, ?_⟩) 0 trivial hstores).2
  split
  · exact hvalue
  · split
    · split
      · exact hvalue
      · exact hasDistinctKeys_ofInt _
    · exact hvalue

end Stores

/-! ## What mutations record -/

/-- No stored value repeats a key after the change, nor does what the change log says about it. -/
structure Change.HasDistinctKeys (change : Change) : Prop where
  params : (Json.object change.params).HasDistinctKeys
  stores : change.content.stores.EveryRoot Root.HasDistinctKeys

/-- No value that the mutation brings in repeats a key. -/
def Mutation.HasDistinctKeys : Mutation → Prop
  | setRootValue _ _ value => value.HasDistinctKeys
  | _ => True

namespace Content

open Json

variable {content : Content} {change : Change} {handle : TypeHandle}

theorem hasDistinctKeys_referenceJson (registry : Registry) (reference : Option TypeReference) :
    (referenceJson registry reference).HasDistinctKeys := by
  cases reference <;> simp [referenceJson, ofText?]

theorem hasDistinctKeys_removedRootJson {root : Root} (h : root.HasDistinctKeys)
    (registry : Registry) (store name : String) :
    (removedRootJson registry store name root).HasDistinctKeys := by
  have hvalue : root.value.HasDistinctKeys := h
  simp [removedRootJson, Entries.keys, hvalue]

section

variable (hstores : content.stores.EveryRoot Root.HasDistinctKeys)
include hstores

theorem hasDistinctKeys_addType {base : String} {make : String → TypeDefinition}
    (h : content.addType base make = .ok change) : change.HasDistinctKeys := by
  unfold addType at h
  dsimp only at h
  split at h
  next => exact absurd h (by simp)
  next =>
      obtain rfl := Except.ok.inj h
      exact ⟨by simp [Entries.keys], hstores⟩

theorem hasDistinctKeys_setTypeName {name : String}
    (h : content.setTypeName handle name = .ok change) : change.HasDistinctKeys := by
  unfold setTypeName at h
  simp only [bind_eq_ok, pure_eq_ok] at h
  obtain ⟨definition, -, -, -, rfl⟩ := h
  exact ⟨by simp [Entries.keys], hstores⟩

theorem hasDistinctKeys_setRecordBaseType {base : Option TypeReference}
    (h : content.setRecordBaseType record base = .ok change) : change.HasDistinctKeys := by
  unfold setRecordBaseType at h
  simp only [bind_eq_ok, pure_eq_ok] at h
  obtain ⟨-, -, rfl⟩ := h
  obtain ⟨htally, hafter⟩ := Stores.conformRecords_keeps hstores
    (content.registry.setBase record base) record
  exact ⟨by simp [Entries.keys, hasDistinctKeys_referenceJson, htally.backupJson], hafter⟩

theorem hasDistinctKeys_setRecordTable {enabled : Bool}
    (h : content.setRecordTable record enabled = .ok change) : change.HasDistinctKeys := by
  unfold setRecordTable at h
  simp only [bind_eq_ok, pure_eq_ok] at h
  obtain ⟨definition, -, -, -, rfl⟩ := h
  exact ⟨by simp [Entries.keys], hstores⟩

omit hstores in
theorem removeRoots_keeps (registry : Registry) {stores : Stores}
    (hstores : stores.EveryRoot Root.HasDistinctKeys) (names : List (String × String)) :
    (array (removeRoots registry stores names).1).HasDistinctKeys ∧
      (removeRoots registry stores names).2.EveryRoot Root.HasDistinctKeys := by
  induction names generalizing stores with
  | nil => exact ⟨by simp [removeRoots], hstores⟩
  | cons first rest ih =>
      obtain ⟨store, name⟩ := first
      rw [removeRoots]
      cases hkept : stores.get? store with
      | none => exact ih hstores
      | some kept =>
          dsimp only
          cases hremoved : NameMap.get? kept name with
          | none => exact ih hstores
          | some removed =>
              have hroot := hstores store name removed
                (Stores.root?_eq_some_iff.mpr ⟨kept, hkept, hremoved⟩)
              obtain ⟨hitems, hafter⟩ := ih (hstores.eraseRoot hkept)
              have hremovedJson := hasDistinctKeys_removedRootJson hroot registry store name
              refine ⟨hasDistinctKeys_array.mpr (List.forall_mem_cons.mpr ⟨hremovedJson, ?_⟩), hafter⟩
              exact hasDistinctKeys_array.mp hitems

theorem hasDistinctKeys_deleteType (h : content.deleteType handle = .ok change) :
    change.HasDistinctKeys := by
  unfold deleteType at h
  simp only [bind_eq_ok] at h
  obtain ⟨definition, -, hrest⟩ := h
  split at hrest
  next => exact absurd hrest (by simp [bind, Except.bind])
  next =>
      cases pure_eq_ok.mp hrest
      obtain ⟨hremoved, hafter⟩ :=
        removeRoots_keeps content.registry hstores (dataRoots (content.usages handle))
      have hdefinition :=
        (content.registry.describeDefinition definition).hasDistinctKeys_toJson
      refine ⟨?_, hafter⟩
      simpa [Entries.keys, hdefinition] using hremoved

theorem hasDistinctKeys_addField (h : content.addField record = .ok change) :
    change.HasDistinctKeys := by
  unfold addField at h
  simp only [bind_eq_ok, pure_eq_ok] at h
  obtain ⟨definition, -, rfl⟩ := h
  exact ⟨by simp [Entries.keys], (Stores.conformRecords_keeps hstores _ record).2⟩

theorem hasDistinctKeys_setFieldName {field name : String}
    (h : content.setFieldName record field name = .ok change) : change.HasDistinctKeys := by
  unfold setFieldName at h
  simp only [bind_eq_ok, Prod.exists, pure_eq_ok] at h
  obtain ⟨index, own, -, -, -, rfl⟩ := h
  exact ⟨by simp [Entries.keys], Stores.renameField_keeps hstores field name⟩

theorem hasDistinctKeys_setFieldType {field : String} {type : TypeReference}
    (h : content.setFieldType record field type = .ok change) : change.HasDistinctKeys := by
  unfold setFieldType at h
  simp only [bind_eq_ok, Prod.exists, pure_eq_ok] at h
  obtain ⟨index, own, -, -, -, -, -, rfl⟩ := h
  obtain ⟨htally, hafter⟩ := Stores.convertField_keeps hstores
    (content.registry.modifyFields record fun fields =>
      fields.modify index fun own => { own with type := type }) record own.name own.type type
  exact ⟨by simp [Entries.keys, htally.backupJson], hafter⟩

theorem hasDistinctKeys_setFieldFlags {field : String} {flags : FieldFlags}
    (h : content.setFieldFlags record field flags = .ok change) : change.HasDistinctKeys := by
  unfold setFieldFlags at h
  simp only [bind_eq_ok, Prod.exists, pure_eq_ok] at h
  obtain ⟨index, own, -, -, -, rfl⟩ := h
  exact ⟨by simp [Entries.keys], hstores⟩

theorem hasDistinctKeys_swapFields {first second : Nat}
    (h : content.swapFields record first second = .ok change) : change.HasDistinctKeys := by
  unfold swapFields at h
  simp only [bind_eq_ok] at h
  obtain ⟨definition, -, hrest⟩ := h
  split at hrest
  next => exact absurd hrest refuse_ne_ok
  next =>
      cases pure_eq_ok.mp hrest
      exact ⟨by simp [Entries.keys], (Stores.conformRecords_keeps hstores _ record).2⟩

theorem hasDistinctKeys_moveField {source target : TypeHandle} {field : String}
    (h : content.moveField source field target = .ok change) : change.HasDistinctKeys := by
  unfold moveField at h
  simp only [bind_eq_ok, Prod.exists, refuse_if_eq_ok, pure_eq_ok] at h
  obtain ⟨index, own, -, definition, -, -, -, -, -, rfl⟩ := h
  obtain ⟨htally, hafter⟩ := Stores.conformRecords_keeps hstores
    ((content.registry.modifyFields source fun fields => fields.eraseIdx index).modifyFields target
      fun fields => own :: fields) source
  exact ⟨by simp [Entries.keys, htally.backupJson], hafter⟩

theorem hasDistinctKeys_flattenBase (h : content.flattenBase record = .ok change) :
    change.HasDistinctKeys := by
  unfold flattenBase at h
  simp only [bind_eq_ok] at h
  obtain ⟨definition, -, hrest⟩ := h
  split at hrest
  next => exact absurd hrest refuse_ne_ok
  next base hbase =>
      simp only [bind_eq_ok] at hrest
      obtain ⟨baseDefinition, -, -, -, hrest⟩ := hrest
      split at hrest
      next => exact absurd hrest (by simp)
      next ofBase hofBase =>
          simp only [bind_eq_ok, pure_eq_ok] at hrest
          obtain ⟨-, -, rfl⟩ := hrest
          refine ⟨?_, (Stores.conformRecords_keeps hstores _ record).2⟩
          simp [Entries.keys, hasDistinctKeys_referenceJson]

theorem hasDistinctKeys_deleteField {field : String}
    (h : content.deleteField record field = .ok change) : change.HasDistinctKeys := by
  unfold deleteField at h
  simp only [bind_eq_ok, Prod.exists, pure_eq_ok] at h
  obtain ⟨index, own, -, rfl⟩ := h
  obtain ⟨htally, hafter⟩ := Stores.conformRecords_keeps hstores
    (content.registry.modifyFields record fun fields => fields.eraseIdx index) record
  exact ⟨by simp [Entries.keys, htally.backupJson], hafter⟩

theorem hasDistinctKeys_addEnumerator (h : content.addEnumerator handle = .ok change) :
    change.HasDistinctKeys := by
  unfold addEnumerator at h
  simp only [bind_eq_ok, Prod.exists, pure_eq_ok] at h
  obtain ⟨definition, enumeration, -, rfl⟩ := h
  exact ⟨by simp [Entries.keys], hstores⟩

theorem hasDistinctKeys_setEnumeratorName {index : Nat} {name : String}
    (h : content.setEnumeratorName handle index name = .ok change) : change.HasDistinctKeys := by
  unfold setEnumeratorName at h
  simp only [bind_eq_ok, Prod.exists, pure_eq_ok] at h
  obtain ⟨definition, enumeration, enumerator, -, -, -, rfl⟩ := h
  exact ⟨by simp [Entries.keys], hstores⟩

theorem hasDistinctKeys_setEnumeratorValue {index : Nat} {value : Option Int64}
    (h : content.setEnumeratorValue handle index value = .ok change) : change.HasDistinctKeys := by
  unfold setEnumeratorValue at h
  simp only [bind_eq_ok, Prod.exists, pure_eq_ok] at h
  obtain ⟨definition, enumeration, enumerator, -, rfl⟩ := h
  exact ⟨by simp [Entries.keys, valueAt], Stores.renumber_keeps hstores _ _ _⟩

theorem hasDistinctKeys_deleteEnumerator {index : Nat}
    (h : content.deleteEnumerator handle index = .ok change) : change.HasDistinctKeys := by
  unfold deleteEnumerator at h
  simp only [bind_eq_ok, Prod.exists, pure_eq_ok] at h
  obtain ⟨definition, enumeration, removed, -, rfl⟩ := h
  have hremoved := removed.hasDistinctKeys_toJson
  exact ⟨by simp [Entries.keys, valueAt, hremoved], Stores.renumber_keeps hstores _ _ _⟩

theorem hasDistinctKeys_addStore {store : String} (h : content.addStore store = .ok change) :
    change.HasDistinctKeys := by
  unfold addStore at h
  simp only [bind_eq_ok, refuse_if_eq_ok, pure_eq_ok] at h
  obtain ⟨-, -, -, rfl⟩ := h
  exact ⟨by simp [Entries.keys], hstores.insert fun name root hroot => absurd hroot (by simp)⟩

theorem hasDistinctKeys_addRoot {store root : String} {type : TypeReference}
    (h : content.addRoot store root type = .ok change) : change.HasDistinctKeys := by
  unfold addRoot at h
  simp only [bind_eq_ok, checkStore_eq_ok, refuse_if_eq_ok, pure_eq_ok] at h
  obtain ⟨kept, hkept, -, -, -, -, -, -, -, rfl⟩ := h
  exact ⟨by simp [Entries.keys], hstores.insertRoot hkept
    (Registry.hasDistinctKeys_defaultValue content.registry type)⟩

theorem hasDistinctKeys_setRootValue {store root : String} {value : Json}
    (hvalue : value.HasDistinctKeys) (h : content.setRootValue store root value = .ok change) :
    change.HasDistinctKeys := by
  unfold setRootValue at h
  simp only [bind_eq_ok, Prod.exists, checkRoot_eq_ok, refuse_if_eq_ok, pure_eq_ok] at h
  obtain ⟨kept, previous, ⟨hkept, hprevious⟩, -, rfl⟩ := h
  have hbefore : previous.value.HasDistinctKeys :=
    hstores store root previous (Stores.root?_eq_some_iff.mpr ⟨kept, hkept, hprevious⟩)
  exact ⟨by simp [Entries.keys, hbefore, hvalue], hstores.insertRoot hkept hvalue⟩

theorem hasDistinctKeys_deleteRoot {store root : String}
    (h : content.deleteRoot store root = .ok change) : change.HasDistinctKeys := by
  unfold deleteRoot at h
  simp only [bind_eq_ok, Prod.exists, checkRoot_eq_ok, pure_eq_ok] at h
  obtain ⟨kept, removed, ⟨hkept, hremoved⟩, rfl⟩ := h
  have hbefore : removed.value.HasDistinctKeys :=
    hstores store root removed (Stores.root?_eq_some_iff.mpr ⟨kept, hkept, hremoved⟩)
  exact ⟨by simp [Entries.keys, hbefore], hstores.eraseRoot hkept⟩

end

end Content

/-- A mutation that brings in no repeated keys leaves none in the stored values, and none in the change
log. -/
theorem Mutation.hasDistinctKeys_carryOut {content : Content} {mutation : Mutation} {change : Change}
    (hstores : content.stores.EveryRoot Root.HasDistinctKeys) (hmutation : mutation.HasDistinctKeys)
    (h : mutation.carryOut content = .ok change) : change.HasDistinctKeys := by
  cases mutation with
  | addStruct | addClass | addEnum => exact Content.hasDistinctKeys_addType hstores h
  | setTypeName => exact Content.hasDistinctKeys_setTypeName hstores h
  | setRecordBaseType => exact Content.hasDistinctKeys_setRecordBaseType hstores h
  | setRecordTable => exact Content.hasDistinctKeys_setRecordTable hstores h
  | deleteType => exact Content.hasDistinctKeys_deleteType hstores h
  | addField => exact Content.hasDistinctKeys_addField hstores h
  | setFieldName => exact Content.hasDistinctKeys_setFieldName hstores h
  | setFieldType => exact Content.hasDistinctKeys_setFieldType hstores h
  | setFieldFlags => exact Content.hasDistinctKeys_setFieldFlags hstores h
  | swapFields => exact Content.hasDistinctKeys_swapFields hstores h
  | moveField => exact Content.hasDistinctKeys_moveField hstores h
  | flattenBase => exact Content.hasDistinctKeys_flattenBase hstores h
  | deleteField => exact Content.hasDistinctKeys_deleteField hstores h
  | addEnumerator => exact Content.hasDistinctKeys_addEnumerator hstores h
  | setEnumeratorName => exact Content.hasDistinctKeys_setEnumeratorName hstores h
  | setEnumeratorValue => exact Content.hasDistinctKeys_setEnumeratorValue hstores h
  | deleteEnumerator => exact Content.hasDistinctKeys_deleteEnumerator hstores h
  | addStore => exact Content.hasDistinctKeys_addStore hstores h
  | addRoot => exact Content.hasDistinctKeys_addRoot hstores h
  | setRootValue => exact Content.hasDistinctKeys_setRootValue hstores hmutation h
  | deleteRoot => exact Content.hasDistinctKeys_deleteRoot hstores h

end LiveSchema
