import LiveSchema.Proofs.Atomicity
import LiveSchema.Proofs.Mutation.Conformance
import LiveSchema.Proofs.Mutation.Flattening
import LiveSchema.Proofs.Mutation.Retyping
import LiveSchema.Proofs.Mutation.Unrecorded

/-!
# What becomes of stored values

Three changes of the fields of records, in every database that mutations lead to and whose roots
conform.  Giving a field another type converts what lies under it; taking a field away takes its key out
of all objects that do not have the field any more; and taking over the fields of the base type leaves
all values alone.  Whatever is lost, the log keeps.
-/

namespace LiveSchema

namespace AuditRecord

/-- How many objects were met, as the record says. -/
def migrated? (record : AuditRecord) : Option Json :=
  PathSegment.child? record.params (.field "migrated")

/-- The values that the record keeps. -/
def backup? (record : AuditRecord) : Option Json :=
  PathSegment.child? record.params (.field "backup")

variable {record : AuditRecord} {params : Entries}

theorem migrated?_of_params (h : record.params = .object params) :
    record.migrated? = Entries.value? params "migrated" := by
  rw [migrated?, h, Json.child?_object]

theorem backup?_of_params (h : record.params = .object params) :
    record.backup? = Entries.value? params "backup" := by
  rw [backup?, h, Json.child?_object]

end AuditRecord

namespace Database

open Registry

variable {digest : String → String} {database : Database}

/-! ## Converted values -/

/-- In every database that can be reached and whose roots conform, giving a field another type replaces
the value of the field in every object of the record, and of what extends it, by the converted one, and
leaves everything else in the stores as it is.  No object inside a value that is replaced by a default
is looked at.  The log counts the objects, and keeps of each its place and the value that it had, in the
same order, unless the conversion is harmless. -/
theorem converted_values_of_reachable (hreachable : Reachable digest database)
    (hconforms : database.content.Conforms) (time : Timestamp) (files : Directory)
    {record : TypeHandle} {field : String} {type : TypeReference} {answer : Answer}
    (h : (database.apply digest time files (.setFieldType record field type)).outcome =
      .ok answer) :
    let after := (database.apply digest time files (.setFieldType record field type)).database
    ∃ own ∈ database.content.registry.ownFields record, own.name = field ∧
      after.content.stores =
        database.content.convertedStores after.content.registry record own type ∧
      (∀ object ∈ database.content.objectsToConvert record own type,
        ∃ held, PathSegment.child? object.value (.field field) = some held) ∧
      ∃ entry, after.ledger.records = database.ledger.records ++ [entry] ∧
        entry.migrated? =
          some (.ofNat (database.content.objectsToConvert record own type).length) ∧
        entry.backup? = some (.array ((database.content.convertedBackup after.content.registry
          record own type).map Backup.toJson)) := by
  intro after
  have hwf := hreachable.wellFormed
  obtain ⟨change, entry, hchange, hcontent, hrecords, -, hparams⟩ :=
    carriedOut_and_recorded h
  obtain ⟨own, hown, rfl, hstores, tally, hreports, hcount, hbackup⟩ :=
    Content.setFieldType_stores hwf hconforms hchange
  have hsame : after.content = change.content := hcontent
  refine ⟨own, hown, rfl, by rw [hsame, hstores], fun object hobject => ?_, entry, hrecords, ?_, ?_⟩
  · obtain ⟨entries, held, hentries, hheld⟩ :=
      Content.under_objectsToConvert hwf hconforms hown hobject
    exact ⟨held, by rw [hentries, Json.child?_object, hheld]⟩
  · rw [AuditRecord.migrated?_of_params hparams, hreports.migrated, hcount]
  · rw [AuditRecord.backup?_of_params hparams, hreports.backup, Tally.backupJson, hbackup, hsame]

/-- A struct with an integer as its only field. -/
def integerStruct : List Mutation :=
  [.addStruct, .addField ⟨37⟩, .setFieldType ⟨37⟩ "field1" (.plain ⟨5⟩)]

/-- There is a root of the struct. -/
@[irreducible]
def integerRoot : Database :=
  ofMutations (integerStruct ++ [.addRoot "main" "root" (.plain ⟨37⟩)])

/-- The types when the field has no type yet, -/
def voidFieldTypes : Registry :=
  (ofStructs ["Struct1"]).modifyFields ⟨37⟩ fun fields =>
    fields ++ [⟨"field1", .plain void, .empty, ""⟩]

/-- and those of the root. -/
def integerTypes : Registry :=
  voidFieldTypes.modifyFields ⟨37⟩ fun fields =>
    fields.modify 0 fun own => { own with type := .plain ⟨5⟩ }

theorem freshFieldName_ofStructs :
    Content.freshFieldName (ofStructs ["Struct1"]) ⟨37⟩ = "field1" :=
  freshFieldName_of_no_fields ⟨_, rfl, rfl⟩ rfl (by decide)

theorem hasOnlyTypes_integerStruct : (ofMutations integerStruct).HasOnlyTypes integerTypes := by
  have hfield : (ofMutations [.addStruct, .addField ⟨37⟩]).HasOnlyTypes voidFieldTypes :=
    (hasOnlyTypes_ofMutations_one_struct.addField ⟨0, 0⟩ NameMap.empty rfl
      freshFieldName_ofStructs).concat
  have htype : Legality.checkFieldType voidFieldTypes ⟨37⟩ (some (.plain ⟨5⟩)) = .ok () :=
    Legality.checkFieldType_eq_ok.mpr ⟨⟨_, rfl, rfl⟩, by decide,
      findOpen?_plain_eq_none (by decide) rfl⟩
  exact (hfield.setFieldType ⟨0, 0⟩ NameMap.empty rfl htype rfl).concat

theorem reachable_integerRoot : Reachable id integerRoot := by
  unfold integerRoot
  exact reachable_ofMutations _

theorem content_integerRoot : integerRoot.content =
    ⟨integerTypes, .single "root" ⟨.plain ⟨37⟩, .object [("field1", .ofNat 0)]⟩⟩ := by
  have hstruct : integerTypes.get? ⟨37⟩ = some {
      name := "Struct1"
      body := .record ⟨.struct, [⟨"field1", .plain ⟨5⟩, .empty, ""⟩], .empty⟩ } := rfl
  have hinteger : integerTypes.get? ⟨5⟩ = some (.ofBuiltin (.integral ⟨true, .w32⟩)) := rfl
  have hfields : integerTypes.allFields ⟨37⟩ = [⟨"field1", .plain ⟨5⟩, .empty, ""⟩] := rfl
  have hlegal : Legality.checkReference integerTypes (.plain ⟨37⟩) = .ok () := rfl
  unfold integerRoot
  rw [ofMutations_concat]
  exact hasOnlyTypes_integerStruct.addRoot_of_single_field ⟨0, 0⟩ NameMap.empty rfl
    checkIdentifier_root hlegal hstruct rfl hfields hinteger rfl (by decide) (by decide) rfl

theorem conforms_integerRoot : integerRoot.content.Conforms := by
  unfold integerRoot
  exact hasOnlyTypes_integerStruct.conforms_concat id

/-- The root holds zero, and the integer becomes a truth value.  The root holds the converted one then,
and the log keeps the zero. -/
theorem converted_values_of_integerRoot :
    let applied := integerRoot.apply id ⟨1, 0⟩ NameMap.empty
      (.setFieldType ⟨37⟩ "field1" (.plain ⟨11⟩))
    integerRoot.content.stores.root? "main" "root" =
        some ⟨.plain ⟨37⟩, .object [("field1", .ofNat 0)]⟩ ∧
      applied.outcome = .ok (.conversion .corrupted) ∧
      applied.database.content.stores.root? "main" "root" =
        some ⟨.plain ⟨37⟩, .object [("field1", .bool false)]⟩ ∧
      ∃ entry, applied.database.ledger.records = integerRoot.ledger.records ++ [entry] ∧
        entry.migrated? = some (.ofNat 1) ∧
        entry.backup? =
          some (.array [Backup.toJson ⟨⟨"main", "root", .root⟩, none, .ofNat 0⟩]) := by
  dsimp only
  have hregistry : integerRoot.content.registry = integerTypes :=
    congrArg Content.registry content_integerRoot
  let truth := integerTypes.modifyFields ⟨37⟩ fun fields =>
    fields.modify 0 fun own => { own with type := .plain ⟨11⟩ }
  have hresult : truth.classify (.plain ⟨5⟩) (.plain ⟨11⟩) = .corrupted := rfl
  obtain ⟨hdone, hafter⟩ :
      (integerRoot.apply id ⟨1, 0⟩ NameMap.empty
          (.setFieldType ⟨37⟩ "field1" (.plain ⟨11⟩))).outcome = .ok (.conversion .corrupted) ∧
        (integerRoot.apply id ⟨1, 0⟩ NameMap.empty
          (.setFieldType ⟨37⟩ "field1" (.plain ⟨11⟩))).database.content.registry = truth := by
    have hfound : integerRoot.content.checkOwnField ⟨37⟩ "field1" =
        .ok (0, ⟨"field1", .plain ⟨5⟩, .empty, ""⟩) := by
      unfold Content.checkOwnField
      rw [hregistry]
      rfl
    have htype : Legality.checkFieldType integerRoot.content.registry ⟨37⟩ (some (.plain ⟨11⟩)) =
        .ok () := by
      rw [hregistry]
      exact Legality.checkFieldType_eq_ok.mpr ⟨⟨_, rfl, rfl⟩, rfl,
        findOpen?_plain_eq_none (by decide) rfl⟩
    have hflags : Legality.checkFieldFlags integerRoot.content.registry ⟨37⟩ (.plain ⟨11⟩) .empty =
        .ok () := by
      rw [hregistry]
      rfl
    obtain ⟨change, hchange, hanswer, hcontent⟩ :=
      integerRoot.content.exists_setFieldType hfound htype hflags
    rw [hregistry] at hanswer hcontent
    refine ⟨(outcome_of_carryOut reachable_integerRoot.project_eq_none _ _ hchange).trans
      (congrArg Except.ok (hanswer.trans (congrArg Answer.conversion hresult))), ?_⟩
    rw [apply_content_of_carryOut _ _ hchange, hcontent]
  obtain ⟨own, hown, -, hstores, -, entry, hrecords, hmigrated, hbackup⟩ :=
    converted_values_of_reachable reachable_integerRoot conforms_integerRoot ⟨1, 0⟩ NameMap.empty
      hdone
  obtain rfl : own = ⟨"field1", .plain ⟨5⟩, .empty, ""⟩ := by
    have hfields : integerTypes.ownFields ⟨37⟩ = [⟨"field1", .plain ⟨5⟩, .empty, ""⟩] := rfl
    rw [hregistry, hfields] at hown
    exact List.mem_singleton.mp hown
  -- the root is the only object that is met
  have hreached : integerTypes.reachedIn
      (integerTypes.defaultedSteps ⟨37⟩ ⟨"field1", .plain ⟨5⟩, .empty, ""⟩ (.plain ⟨11⟩))
      (fun type => integerTypes.isParentOf ⟨37⟩ type.handle)
      ⟨.plain ⟨37⟩, .object [("field1", .ofNat 0)]⟩ =
        [⟨.plain ⟨37⟩, .root, .object [("field1", .ofNat 0)]⟩] := by
    refine reachedIn_eq_singleton rfl fun child hchild => ?_
    have hchildren : integerTypes.childValues (.plain ⟨37⟩) (.object [("field1", .ofNat 0)]) =
        [⟨.plain ⟨5⟩, .field "field1", .ofNat 0⟩] := rfl
    obtain rfl := List.mem_singleton.mp (hchildren ▸ hchild)
    exact everywhere_of_childValues_eq_nil rfl rfl
  have hconverted : truth.convert (.plain ⟨5⟩) (.plain ⟨11⟩) (.ofNat 0) = .bool false := rfl
  have hobjects : integerRoot.content.objectsToConvert ⟨37⟩ ⟨"field1", .plain ⟨5⟩, .empty, ""⟩
      (.plain ⟨11⟩) =
        [⟨⟨"main", "root", .root⟩, .plain ⟨37⟩, .object [("field1", .ofNat 0)]⟩] := by
    rw [content_integerRoot, Content.objectsToConvert, Stores.reachedSites_single, hreached]
    rfl
  refine ⟨?_, hdone, ?_, entry, hrecords, ?_, ?_⟩
  · rw [content_integerRoot]
    exact Stores.root?_single
  · rw [hstores, hafter, content_integerRoot, Content.convertedStores,
      Stores.changedAt_single hreached]
    exact Stores.root?_single.trans (congrArg (fun value => some (Root.mk (.plain ⟨37⟩)
      (.object [("field1", value)]))) hconverted)
  · rw [hmigrated, hobjects]
    rfl
  · rw [hbackup, Content.convertedBackup, hafter, if_neg (by rw [hresult]; decide), hobjects]
    rfl

/-! ## Fields that are taken away -/

/-- The objects of some types lose a key, the values under it are kept in the log, and everything else in
the stores stays the same. -/
structure LosesField (database after : Database) (losing : TypeReference → Bool)
    (field : String) : Prop where
  /-- Away from the lost key, only the order of entries may be another one. -/
  stores : Stores.Same after.content.stores (database.content.storesWithout losing field)
  /-- Each of the objects held a value under the key. -/
  held : ∀ object ∈ database.content.objectsLosing losing field,
    ∃ held, PathSegment.child? object.value (.field field) = some held
  /-- The log keeps each lost value, once, with its place and its key. -/
  recorded : ∃ entry, ∃ backups : List Backup,
    after.ledger.records = database.ledger.records ++ [entry] ∧
    entry.backup? = some (.array (backups.map Backup.toJson)) ∧
    backups.Perm (database.content.lostBackup losing field)

/-- What a change that was carried out says about the objects that lose a field. -/
theorem losesField_of_change {after : Database} {change : Change} {entry : AuditRecord}
    {losing : TypeReference → Bool} {record : TypeHandle} {own : Field}
    (hwf : database.content.registry.WellFormed) (hconforms : database.content.Conforms)
    (hown : own ∈ database.content.registry.ownFields record)
    (hlosing : ∀ type, losing type = true → database.content.registry.isParentOf record type.handle)
    (hcontent : after.content = change.content)
    (hrecords : after.ledger.records = database.ledger.records ++ [entry])
    (hparams : entry.params = .object change.params)
    (hstores : Stores.Same change.content.stores (database.content.storesWithout losing own.name))
    (htally : ∃ tally, change.Reports tally ∧
      tally.backup.Perm (database.content.lostBackup losing own.name)) :
    database.LosesField after losing own.name := by
  obtain ⟨tally, hreports, hbackup⟩ := htally
  refine ⟨hcontent ▸ hstores, fun object hobject => ?_, entry, tally.backup, hrecords, ?_, hbackup⟩
  · obtain ⟨-, -, -, -, hmatching⟩ := Stores.mem_reachedSites hobject
    obtain ⟨entries, held, hentries, hheld⟩ := Stores.exists_held_of_mem_reachedSites hwf hown
      hconforms hobject ((isParentOf_iff _ _).mp (hlosing _ hmatching))
    exact ⟨held, by rw [hentries, Json.child?_object, hheld]⟩
  · rw [AuditRecord.backup?_of_params hparams, hreports.backup, Tally.backupJson]

/-- In every database that can be reached and whose roots conform, every own field of a record can be
deleted: then its key is taken out of all objects of the record and of what extends it.  If a field is
moved down, its key is taken out of all objects of the record that declared it and of what extends this
record, except for the record that declares it now and what extends that.  Nothing else in the stores
changes but the order of entries, and the log keeps each value that was lost. -/
theorem lost_values_of_reachable (hreachable : Reachable digest database)
    (hconforms : database.content.Conforms) (time : Timestamp) (files : Directory) :
    (∀ record, ∀ own ∈ database.content.registry.ownFields record,
      (database.apply digest time files (.deleteField record own.name)).outcome = .ok .done ∧
        database.LosesField
          (database.apply digest time files (.deleteField record own.name)).database
          (fun type => database.content.registry.isParentOf record type.handle) own.name) ∧
      ∀ source field target answer,
        (database.apply digest time files (.moveField source field target)).outcome = .ok answer →
          database.LosesField
            (database.apply digest time files (.moveField source field target)).database
            (fun type => database.content.registry.isParentOf source type.handle &&
              !database.content.registry.isParentOf target type.handle) field := by
  have hwf := hreachable.wellFormed
  refine ⟨fun record own hown => ?_, fun source field target answer h => ?_⟩
  · have hdone : (database.apply digest time files (.deleteField record own.name)).outcome =
        .ok .done := by
      obtain ⟨change, hchange, hanswer⟩ : ∃ change, Mutation.carryOut database.content
          (.deleteField record own.name) = .ok change ∧ change.answer = .done :=
        Content.exists_deleteField hown
      exact (outcome_of_carryOut hreachable.project_eq_none time files hchange).trans
        (congrArg Except.ok hanswer)
    obtain ⟨change, entry, hchange, hcontent, hrecords, -, hparams⟩ :=
      carriedOut_and_recorded hdone
    obtain ⟨hstores, htally⟩ := Content.deleteField_stores hwf hconforms hchange
    exact ⟨hdone, losesField_of_change hwf hconforms hown (fun _ => id) hcontent hrecords hparams
      hstores htally⟩
  · obtain ⟨change, entry, hchange, hcontent, hrecords, -, hparams⟩ :=
      carriedOut_and_recorded h
    obtain ⟨-, -, -, index, own, -, hindex, rfl, -⟩ := Content.moveField_checked hchange
    obtain ⟨hstores, htally⟩ := Content.moveField_stores hwf hconforms hchange
    refine losesField_of_change hwf hconforms (List.mem_of_getElem? hindex) (fun type hlosing => ?_)
      hcontent hrecords hparams hstores htally
    exact (Bool.and_eq_true _ _ ▸ hlosing).1

/-- Two structs. -/
def twoStructs : Database :=
  ((inMemory.apply id ⟨0, 0⟩ NameMap.empty .addStruct).database.apply id ⟨1, 0⟩ NameMap.empty
    .addStruct).database

/-- Two structs, of which the second derives from the first. -/
def derivingStructs : Database :=
  (twoStructs.apply id ⟨2, 0⟩ NameMap.empty
    (.setRecordBaseType ⟨38⟩ (some (.plain ⟨37⟩)))).database

/-- The first of the two structs has a field, and the second one has a root. -/
def derivedRoot : Database :=
  ((derivingStructs.apply id ⟨3, 0⟩ NameMap.empty (.addField ⟨37⟩)).database.apply id ⟨4, 0⟩
    NameMap.empty (.addRoot "main" "root" (.plain ⟨38⟩))).database

theorem reachable_derivingStructs : Reachable id derivingStructs :=
  ((Reachable.fresh.step ⟨0, 0⟩ NameMap.empty .addStruct).step ⟨1, 0⟩ NameMap.empty
    .addStruct).step ⟨2, 0⟩ NameMap.empty (.setRecordBaseType ⟨38⟩ (some (.plain ⟨37⟩)))

theorem reachable_derivedRoot : Reachable id derivedRoot := by
  rw [derivedRoot]
  exact (reachable_derivingStructs.step ⟨3, 0⟩ NameMap.empty (.addField ⟨37⟩)).step ⟨4, 0⟩
    NameMap.empty (.addRoot "main" "root" (.plain ⟨38⟩))

/-- The types when the second struct derives from the first, -/
def derivingTypes : Registry :=
  (ofStructs ["Struct1", "Struct2"]).setBase ⟨38⟩ (some (.plain ⟨37⟩))

/-- and those of the root. -/
def derivedTypes : Registry :=
  derivingTypes.modifyFields ⟨37⟩ fun fields => fields ++ [⟨"field1", .plain void, .empty, ""⟩]

theorem hasOnlyTypes_derivingStructs : derivingStructs.HasOnlyTypes derivingTypes := by
  have hbase : Legality.checkBase (ofStructs ["Struct1", "Struct2"]) ⟨38⟩ (some (.plain ⟨37⟩)) =
      .ok () :=
    checkBase_of_flat rfl rfl rfl rfl (by decide)
  exact (hasOnlyTypes_of_two_structs ⟨0, 0⟩ ⟨1, 0⟩).setRecordBaseType ⟨2, 0⟩ NameMap.empty hbase

theorem hasOnlyTypes_derivedTypes :
    (derivingStructs.apply id ⟨3, 0⟩ NameMap.empty (.addField ⟨37⟩)).database.HasOnlyTypes
      derivedTypes := by
  have hname : Content.freshFieldName derivingTypes ⟨37⟩ = "field1" :=
    freshFieldName_of_no_fields ⟨_, rfl, rfl⟩ rfl (by decide)
  exact hasOnlyTypes_derivingStructs.addField ⟨3, 0⟩ NameMap.empty rfl hname

theorem content_derivedRoot : derivedRoot.content =
    ⟨derivedTypes, .single "root" ⟨.plain ⟨38⟩, .object [("field1", .null)]⟩⟩ := by
  have hstruct : derivedTypes.get? ⟨38⟩ = some {
      name := "Struct2", base := some (.plain ⟨37⟩), body := .record ⟨.struct, [], .empty⟩ } := rfl
  have hvoid : derivedTypes.get? void = some (.ofBuiltin .void) := rfl
  have hfields : derivedTypes.allFields ⟨38⟩ = [⟨"field1", .plain void, .empty, ""⟩] := rfl
  have hlegal : Legality.checkReference derivedTypes (.plain ⟨38⟩) = .ok () := rfl
  rw [derivedRoot]
  exact hasOnlyTypes_derivedTypes.addRoot_of_single_field ⟨4, 0⟩ NameMap.empty rfl
    checkIdentifier_root hlegal hstruct rfl hfields hvoid rfl (by decide) (by decide) rfl

theorem registry_derivedRoot : derivedRoot.content.registry = derivedTypes :=
  congrArg Content.registry content_derivedRoot

theorem conforms_derivedRoot : derivedRoot.content.Conforms := by
  have hreachable := reachable_derivingStructs.step ⟨3, 0⟩ NameMap.empty (.addField ⟨37⟩)
  rw [derivedRoot]
  exact hasOnlyTypes_derivedTypes.conforms_apply hreachable ⟨4, 0⟩ NameMap.empty id

/-- The field is deleted, or moved down to the struct with the root. -/
theorem lost_values_of_derived_root :
    derivedRoot.LosesField
        (derivedRoot.apply id ⟨5, 0⟩ NameMap.empty (.deleteField ⟨37⟩ "field1")).database
        (fun type => derivedRoot.content.registry.isParentOf ⟨37⟩ type.handle) "field1" ∧
      (derivedRoot.apply id ⟨5, 0⟩ NameMap.empty (.moveField ⟨37⟩ "field1" ⟨38⟩)).outcome =
        .ok .done ∧
      derivedRoot.LosesField
        (derivedRoot.apply id ⟨5, 0⟩ NameMap.empty (.moveField ⟨37⟩ "field1" ⟨38⟩)).database
        (fun type => derivedRoot.content.registry.isParentOf ⟨37⟩ type.handle &&
          !derivedRoot.content.registry.isParentOf ⟨38⟩ type.handle) "field1" := by
  obtain ⟨hdelete, hmove⟩ :=
    lost_values_of_reachable reachable_derivedRoot conforms_derivedRoot ⟨5, 0⟩ NameMap.empty
  have hregistry := registry_derivedRoot
  have hown : ⟨"field1", .plain void, .empty, ""⟩ ∈
      derivedRoot.content.registry.ownFields ⟨37⟩ := by
    rw [hregistry]
    decide
  have hdone : (derivedRoot.apply id ⟨5, 0⟩ NameMap.empty
      (.moveField ⟨37⟩ "field1" ⟨38⟩)).outcome = .ok .done := by
    have hfound : derivedRoot.content.checkOwnField ⟨37⟩ "field1" =
        .ok (0, ⟨"field1", .plain void, .empty, ""⟩) := by
      unfold Content.checkOwnField
      rw [hregistry]
      rfl
    obtain ⟨definition, htarget⟩ : ∃ definition,
        Legality.checkRecord derivedRoot.content.registry ⟨38⟩ = .ok definition := by
      rw [hregistry]
      exact ⟨_, rfl⟩
    have hbelow : derivedRoot.content.registry.isStrictAncestor ⟨37⟩ ⟨38⟩ = true := by
      rw [hregistry]
      rfl
    have hfree : derivedRoot.content.registry.ownFields ⟨38⟩ = [] := by
      rw [hregistry]
      rfl
    have hflags : Legality.checkFieldFlags derivedRoot.content.registry ⟨38⟩ (.plain void)
        .empty = .ok () := by
      rw [hregistry]
      rfl
    obtain ⟨change, hchange, hanswer⟩ : ∃ change, Mutation.carryOut derivedRoot.content
        (.moveField ⟨37⟩ "field1" ⟨38⟩) = .ok change ∧ change.answer = .done := by
      unfold Mutation.carryOut Content.moveField
      simp only [hfound, htarget, hbelow, hfree, hflags, bind, Except.bind]
      exact ⟨_, rfl, rfl⟩
    exact (outcome_of_carryOut reachable_derivedRoot.project_eq_none _ _ hchange).trans
      (congrArg Except.ok hanswer)
  exact ⟨(hdelete ⟨37⟩ _ hown).2, hdone, hmove ⟨37⟩ "field1" ⟨38⟩ .done hdone⟩

/-! ## Taking over the fields of the base type -/

/-- In every database that can be reached and whose roots conform, a record fails to take over the
fields of its base type just if the flags of one of them are not legal on the record.  Otherwise all
effective fields and all other types stay as they are, the record derives from the base type of its
former base type, and all stored values are the same but for the order of entries.  The log keeps no
values, and none are lost. -/
theorem flattened_values_of_reachable (hreachable : Reachable digest database)
    (hconforms : database.content.Conforms) (time : Timestamp) (files : Directory)
    {record base : TypeHandle} (hbase : database.content.registry.baseOf? record = some base) :
    let applied := database.apply digest time files (.flattenBase record)
    ((∃ error, applied.outcome = .error error) ↔
        ∃ own ∈ database.content.registry.ownFields base,
          Legality.checkFieldFlags database.content.registry record own.type own.flags ≠ .ok ()) ∧
      ∀ answer, applied.outcome = .ok answer →
        (∀ handle, applied.database.content.registry.allFields handle =
            database.content.registry.allFields handle) ∧
          (∀ handle, handle ≠ record → applied.database.content.registry.get? handle =
            database.content.registry.get? handle) ∧
          applied.database.content.registry.baseOf? record =
            database.content.registry.baseOf? base ∧
          Stores.Same applied.database.content.stores database.content.stores ∧
          ∃ entry, applied.database.ledger.records = database.ledger.records ++ [entry] ∧
            entry.backup? = none := by
  intro applied
  have hwf := hreachable.wellFormed
  constructor
  · have hall := Content.exists_flattenBase_iff hwf hbase
    refine (refused_iff hreachable.project_eq_none time files (.flattenBase record)).trans ?_
    refine (not_congr hall).trans ?_
    simp only [not_forall, exists_prop, ne_eq]
  · intro answer h
    obtain ⟨change, entry, hchange, hcontent, hrecords, -, hparams⟩ :=
      carriedOut_and_recorded h
    obtain ⟨hfields, hothers, hparent, hstores⟩ :=
      Content.flattenBase_effect hwf hconforms hbase hchange
    have hsame : applied.database.content = change.content := hcontent
    rw [hsame]
    refine ⟨hfields, hothers, hparent, hstores, entry, hrecords, ?_⟩
    have hreshaped : (Mutation.flattenBase record).reshaped? = some record := rfl
    obtain ⟨said, count, -, hsaid, -, hbackup⟩ :=
      Mutation.params_of_reshaped hreshaped rfl hchange hchange
    rw [AuditRecord.backup?_of_params hparams, hsaid, Entries.value?_append, hbackup]
    simp [Entries.value?]

/-- The struct with the root takes over the field, and derives from nothing then. -/
theorem flattened_values_of_derived_root :
    let applied := derivedRoot.apply id ⟨5, 0⟩ NameMap.empty (.flattenBase ⟨38⟩)
    (∃ answer, applied.outcome = .ok answer) ∧
      (∀ handle, applied.database.content.registry.allFields handle =
        derivedRoot.content.registry.allFields handle) ∧
      applied.database.content.registry.baseOf? ⟨38⟩ = none ∧
      Stores.Same applied.database.content.stores derivedRoot.content.stores := by
  intro applied
  have hregistry := registry_derivedRoot
  have hbase : derivedRoot.content.registry.baseOf? ⟨38⟩ = some ⟨37⟩ := by
    rw [hregistry]
    rfl
  obtain ⟨hrefused, heffect⟩ :=
    flattened_values_of_reachable reachable_derivedRoot conforms_derivedRoot ⟨5, 0⟩ NameMap.empty
      hbase
  have hflags : ∀ own ∈ derivedRoot.content.registry.ownFields ⟨37⟩,
      Legality.checkFieldFlags derivedRoot.content.registry ⟨38⟩ own.type own.flags = .ok () := by
    rw [hregistry]
    decide
  cases houtcome : applied.outcome with
  | error error =>
      obtain ⟨own, hown, hillegal⟩ := hrefused.mp ⟨error, houtcome⟩
      exact absurd (hflags own hown) hillegal
  | ok answer =>
      obtain ⟨hfields, -, hparent, hstores, -⟩ := heffect answer houtcome
      refine ⟨⟨answer, rfl⟩, hfields, ?_, hstores⟩
      rw [hparent, hregistry]
      rfl

end Database
end LiveSchema
