import LiveSchema.Mutation.InPlace
import LiveSchema.Proofs.Mutation.Steps
import LiveSchema.Proofs.NameMap
import LiveSchema.Proofs.Schema.Edits

/-!
# Mutations in place are mutations

An edit reads and writes step by step, and a refusal does not take back what was written.  Here it is
shown that every edit does just what the mutation says.  In particular its writes cannot fail once its
checks have passed, so a refused mutation leaves the content as it was.
-/

namespace LiveSchema
namespace Edit

variable {α β : Type} {content : Content} {handle record : TypeHandle} {definition : TypeDefinition}

/-! ## One step after the other -/

@[simp]
theorem on_pure (a : α) (content : Content) : (pure a : Edit α).on content = (.ok a, content) :=
  rfl

@[simp]
theorem on_throw (error : Error) (content : Content) :
    (throw error : Edit α).on content = (.error error, content) :=
  rfl

@[simp]
theorem on_get (content : Content) : (get : Edit Content).on content = (.ok content, content) :=
  rfl

@[simp]
theorem on_registry (content : Content) : registry.on content = (.ok content.registry, content) :=
  rfl

theorem on_bind (edit : Edit α) (next : α → Edit β) (content : Content) :
    (edit >>= next).on content =
      match edit.on content with
      | (.error error, left) => (.error error, left)
      | (.ok a, left) => (next a).on left := by
  simp only [on, ExceptT.run_bind, StateT.run_bind]
  rcases edit.run.run content with ⟨_ | a, left⟩ <;> rfl

/-- A check writes nothing. -/
theorem on_check (question : Content → Except Error α) (content : Content) :
    (check question).on content = (question content, content) := by
  rfl

@[simp]
theorem on_writeRegistry (change : Registry → Registry) (content : Content) :
    (writeRegistry change).on content =
      (.ok (), content.withRegistry (change content.registry)) :=
  rfl

@[simp]
theorem on_writeStores (change : Registry → Stores → α × Stores) (content : Content) :
    (writeStores change).on content =
      (.ok (change content.registry content.stores).1,
        { content with stores := (change content.registry content.stores).2 }) :=
  rfl

@[simp]
theorem on_conformRecords (record : TypeHandle) (content : Content) :
    (conformRecords record).on content =
      (.ok (content.stores.conformRecords content.registry record).1,
        { content with stores := (content.stores.conformRecords content.registry record).2 }) :=
  rfl

/-! ## Live types can be written -/

theorem on_writeDefinition (hfound : content.registry.get? handle = some definition)
    (change : TypeDefinition → TypeDefinition) :
    (writeDefinition handle change).on content =
      (.ok (), content.withRegistry (content.registry.modify handle change)) := by
  simp [writeDefinition, on_bind, on_check, Legality.definitionOf_eq_ok.mpr hfound]

theorem on_writeRecord (hfound : content.registry.get? handle = some definition)
    (hrecord : definition.isRecord = true) (change : Record → Record) :
    (writeRecord handle change).on content =
      (.ok (), content.withRegistry (content.registry.modifyRecord handle change)) := by
  simp [writeRecord, on_bind, on_check, Legality.definitionOf_eq_ok.mpr hfound, hrecord]

theorem on_writeFields (hfound : content.registry.get? handle = some definition)
    (hrecord : definition.isRecord = true) (change : List Field → List Field) :
    (writeFields handle change).on content =
      (.ok (), content.withRegistry (content.registry.modifyFields handle change)) :=
  on_writeRecord hfound hrecord _

theorem on_writeEnumerators {enumeration : Enumeration}
    (hfound : content.registry.get? handle = some definition)
    (hbody : definition.body = .enumeration enumeration)
    (change : List Enumerator → List Enumerator) :
    (writeEnumerators handle change).on content =
      (.ok (), content.withRegistry (content.registry.modifyEnumerators handle change)) := by
  simp [writeEnumerators, on_bind, on_check, Legality.definitionOf_eq_ok.mpr hfound,
    TypeDefinition.enumeration?, hbody]

theorem on_readRecord {own : Record} (hfound : content.registry.get? handle = some definition)
    (hbody : definition.body = .record own) :
    (readRecord handle).on content = (.ok own, content) := by
  simp [readRecord, on_check, Legality.definitionOf_eq_ok.mpr hfound, TypeDefinition.record?, hbody,
    bind, Except.bind]

theorem on_readRecord_of_none (hfound : content.registry.get? handle = some definition)
    (hbody : definition.record? = none) :
    (readRecord handle).on content =
      (.error (.invariant (.notRecord definition.name)), content) := by
  simp [readRecord, on_check, Legality.definitionOf_eq_ok.mpr hfound, hbody, bind, Except.bind]

theorem on_readValues {enumeration : Enumeration}
    (hfound : content.registry.get? handle = some definition)
    (hbody : definition.body = .enumeration enumeration) :
    (readValues handle).on content = (.ok enumeration.values, content) := by
  simp [readValues, on_check, Legality.definitionOf_eq_ok.mpr hfound, TypeDefinition.enumeration?,
    hbody, bind, Except.bind]

/-! ## Edits and changes -/

/-- A change that is refused leaves the content as it was; any other leaves its own content. -/
def left (content : Content) : Except Error Change → Except Error Report × Content
  | .error error => (.error error, content)
  | .ok change => (.ok ⟨change.params, change.answer⟩, change.content)

/-- An edit leaves just what a change leaves, and tells what the change tells. -/
def Performs (edit : Edit Report) (content : Content) (change : Except Error Change) : Prop :=
  edit.on content = left content change

variable {next : α → Edit Report} {further : α → Except Error Change} {change : Except Error Change}

theorem performs_ok {edit : Edit Report} {change : Change}
    (h : edit.on content = (.ok ⟨change.params, change.answer⟩, change.content)) :
    Performs edit content (pure change) :=
  h

/-- Both start with one and the same check. -/
theorem Performs.check {question : Content → Except Error α}
    (h : ∀ a, question content = .ok a → (next a).Performs content (further a)) :
    Performs (Edit.check question >>= next) content (question content >>= further) := by
  rw [Performs, on_bind, on_check]
  cases hasked : question content with
  | error error => rfl
  | ok a => exact h a hasked

/-- A step of the edit that only reads. -/
theorem Performs.read {edit : Edit α} {a : α} (hread : edit.on content = (.ok a, content))
    (h : (next a).Performs content change) : Performs (edit >>= next) content change := by
  rw [Performs, on_bind, hread]
  exact h

/-- Both refuse on one and the same condition. -/
theorem Performs.refuseIf {condition : Prop} [Decidable condition] {error : Error}
    {next : Unit → Edit Report} {further : Unit → Except Error Change}
    (h : ¬ condition → (next ()).Performs content (further ())) :
    Performs (if condition then throw error >>= next else next ()) content
      (if condition then .error error >>= further else further ()) := by
  by_cases hcondition : condition
  · rw [if_pos hcondition, if_pos hcondition]
    rfl
  · rw [if_neg hcondition, if_neg hcondition]
    exact h hcondition

/-! ## Types -/

theorem performs_addType (content : Content) (base : String) (make : String → TypeDefinition) :
    Performs (addType base make) content (content.addType base make) := by
  unfold addType Content.addType
  refine .read (on_registry content) ?_
  dsimp only
  split
  next => rfl
  next => rfl

theorem performs_setTypeName (content : Content) (handle : TypeHandle) (name : String) :
    Performs (setTypeName handle name) content (content.setTypeName handle name) := by
  unfold setTypeName Content.setTypeName
  refine .check fun definition hdefinition => .check fun _ _ => .read (on_registry content) ?_
  obtain ⟨hfound, -⟩ := Content.checkUserType_eq_ok.mp hdefinition
  refine performs_ok ?_
  simp only [on_bind, on_writeDefinition hfound, on_get, on_pure, Registry.nameOf_of_get? hfound]
  rfl

theorem performs_setRecordBaseType (content : Content) (record : TypeHandle)
    (base : Option TypeReference) :
    Performs (setRecordBaseType record base) content (content.setRecordBaseType record base) := by
  unfold setRecordBaseType Content.setRecordBaseType
  refine .check fun _ hcheck => ?_
  obtain ⟨definition, hfound, -⟩ := Legality.checkBase_eq_ok.mp hcheck
  have hdefinition := Legality.definitionOf_eq_ok.mpr hfound
  refine performs_ok ?_
  simp only [on_bind, on_check, hdefinition, on_registry, on_writeDefinition hfound,
    on_conformRecords, on_pure, hfound, Option.bind_some]
  rfl

theorem performs_setRecordTable (content : Content) (record : TypeHandle) (enabled : Bool) :
    Performs (setRecordTable record enabled) content (content.setRecordTable record enabled) := by
  unfold setRecordTable Content.setRecordTable
  refine .check fun definition hdefinition => ?_
  obtain ⟨hfound, hrecord⟩ := Legality.checkRecord_eq_ok.mp hdefinition
  obtain ⟨own, hbody⟩ := TypeDefinition.isRecord_iff.mp hrecord
  have hflags : Legality.flagsOf content.registry record = own.flags := by
    simp [Legality.flagsOf, Registry.record?, hfound, TypeDefinition.record?, hbody]
  dsimp only
  rw [hflags]
  refine .read (on_readRecord hfound hbody) (.check fun _ _ => performs_ok ?_)
  simp only [on_bind, on_writeRecord hfound hrecord, on_registry, on_pure, Content.withRegistry,
    Registry.nameOf_modifyRecord, Registry.nameOf_of_get? hfound]

theorem performs_deleteType (content : Content) (handle : TypeHandle) :
    Performs (deleteType handle) content (content.deleteType handle) := by
  unfold deleteType Content.deleteType
  refine .check fun definition hdefinition => .read (on_get content) ?_
  obtain ⟨hfound, -⟩ := Content.checkUserType_eq_ok.mp hdefinition
  have hlive := Legality.definitionOf_eq_ok.mpr hfound
  simp only [Registry.nameOf_of_get? hfound]
  refine .refuseIf fun _ => performs_ok ?_
  simp only [on_bind, on_check, hlive, on_registry, on_writeStores, on_writeRegistry, on_pure]
  rfl

/-! ## Fields -/

theorem performs_addField (content : Content) (record : TypeHandle) :
    Performs (addField record) content (content.addField record) := by
  unfold addField Content.addField
  refine .check fun definition hdefinition => .read (on_registry content) (performs_ok ?_)
  obtain ⟨hfound, hrecord⟩ := Legality.checkRecord_eq_ok.mp hdefinition
  simp only [on_bind, on_writeFields hfound hrecord, on_conformRecords, on_registry, on_pure,
    Content.withRegistry, Registry.nameOf_modifyFields, Registry.nameOf_of_get? hfound]
  rfl

theorem performs_setFieldName (content : Content) (record : TypeHandle) (field name : String) :
    Performs (setFieldName record field name) content (content.setFieldName record field name) := by
  unfold setFieldName Content.setFieldName
  refine .check fun ⟨index, own⟩ hown => .check fun _ _ => performs_ok ?_
  obtain ⟨⟨definition, hfound, hrecord⟩, -⟩ := Content.checkOwnField_eq_ok hown
  simp only [on_bind, on_writeFields hfound hrecord, on_writeStores, on_registry, on_pure,
    Content.withRegistry]
  rfl

theorem performs_setFieldType (content : Content) (record : TypeHandle) (field : String)
    (type : TypeReference) :
    Performs (setFieldType record field type) content (content.setFieldType record field type) := by
  unfold setFieldType Content.setFieldType
  refine .check fun ⟨index, own⟩ hown => .check fun _ _ => ?_
  obtain ⟨⟨definition, hfound, hrecord⟩, -⟩ := Content.checkOwnField_eq_ok hown
  obtain ⟨declared, hbody⟩ := TypeDefinition.isRecord_iff.mp hrecord
  refine .read (on_readRecord hfound hbody) (.check fun _ _ => performs_ok ?_)
  simp only [on_bind, on_writeFields hfound hrecord, on_writeStores, on_registry, on_pure,
    Content.withRegistry]
  rfl

theorem performs_setFieldFlags (content : Content) (record : TypeHandle) (field : String)
    (flags : FieldFlags) :
    Performs (setFieldFlags record field flags) content
      (content.setFieldFlags record field flags) := by
  unfold setFieldFlags Content.setFieldFlags
  refine .check fun ⟨index, own⟩ hown => ?_
  obtain ⟨⟨definition, hfound, hrecord⟩, -⟩ := Content.checkOwnField_eq_ok hown
  obtain ⟨declared, hbody⟩ := TypeDefinition.isRecord_iff.mp hrecord
  refine .read (on_readRecord hfound hbody) (.check fun _ _ => performs_ok ?_)
  simp only [on_bind, on_writeFields hfound hrecord, on_registry, on_pure, Content.withRegistry,
    Registry.nameOf_modifyFields]

theorem performs_swapFields (content : Content) (record : TypeHandle) (first second : Nat) :
    Performs (swapFields record first second) content
      (content.swapFields record first second) := by
  unfold swapFields Content.swapFields
  refine .check fun definition hdefinition => ?_
  obtain ⟨hfound, hrecord⟩ := Legality.checkRecord_eq_ok.mp hdefinition
  obtain ⟨own, hbody⟩ := TypeDefinition.isRecord_iff.mp hrecord
  have hfields : content.registry.ownFields record = own.fields := by
    simp [Registry.ownFields, Registry.record?, hfound, TypeDefinition.record?, hbody]
  refine .read (on_readRecord hfound hbody) ?_
  dsimp only
  rw [hfields]
  cases [first, second].find? fun position => own.fields.length ≤ position with
  | some position => rfl
  | none =>
      refine performs_ok ?_
      simp only [on_bind, on_writeFields hfound hrecord, on_conformRecords, on_registry, on_pure,
        Content.withRegistry, Registry.nameOf_modifyFields, Registry.nameOf_of_get? hfound]

/-- The record that takes the field up is still there when the other one has lost it. -/
theorem performs_moveField (content : Content) (source : TypeHandle) (field : String)
    (target : TypeHandle) :
    Performs (moveField source field target) content
      (content.moveField source field target) := by
  unfold moveField Content.moveField
  refine .check fun ⟨index, own⟩ hown => .check fun definition htarget => ?_
  obtain ⟨⟨sourceDefinition, hsource, hsourceRecord⟩, -⟩ := Content.checkOwnField_eq_ok hown
  obtain ⟨htarget, htargetRecord⟩ := Legality.checkRecord_eq_ok.mp htarget
  obtain ⟨ofSource, hofSource⟩ := TypeDefinition.isRecord_iff.mp hsourceRecord
  obtain ⟨ofTarget, hofTarget⟩ := TypeDefinition.isRecord_iff.mp htargetRecord
  have hfields : content.registry.ownFields target = ofTarget.fields := by
    simp [Registry.ownFields, Registry.record?, htarget, TypeDefinition.record?, hofTarget]
  refine .read (on_registry content) (.refuseIf fun _ => .read (on_readRecord htarget hofTarget) ?_)
  dsimp only
  rw [hfields]
  refine .refuseIf fun _ => .read (on_readRecord hsource hofSource) (.check fun _ _ => performs_ok ?_)
  obtain ⟨changed, hchanged, hchangedRecord⟩ : (content.registry.modifyFields source
      fun fields => fields.eraseIdx index).IsRecord target :=
    Registry.isRecord_modifyFields _ ⟨definition, htarget, htargetRecord⟩
  have hput : (writeFields target fun fields => own :: fields).on (content.withRegistry
      (content.registry.modifyFields source fun fields => fields.eraseIdx index)) = _ :=
    on_writeFields hchanged hchangedRecord _
  simp only [on_bind, on_writeFields hsource hsourceRecord, hput, on_conformRecords, on_registry,
    on_pure]
  simp only [Content.withRegistry, Registry.nameOf_modifyFields, Registry.nameOf_of_get? htarget]

/-- The record is still there to get its new base type when the fields have been copied. -/
theorem performs_flattenBase (content : Content) (record : TypeHandle) :
    Performs (flattenBase record) content (content.flattenBase record) := by
  unfold flattenBase Content.flattenBase
  refine .check fun definition hdefinition => .read (on_registry content) ?_
  obtain ⟨hfound, hrecord⟩ := Legality.checkRecord_eq_ok.mp hdefinition
  dsimp only
  cases hbase : content.registry.baseOf? record with
  | none => rfl
  | some base =>
      refine .check fun baseDefinition hbaseDefinition => .check fun _ _ => ?_
      have hbaseFound := Legality.definitionOf_eq_ok.mp hbaseDefinition
      cases hbody : baseDefinition.record? with
      | none =>
          rw [Performs, on_bind, on_readRecord_of_none hbaseFound hbody]
          rfl
      | some ofBase =>
          refine .read (on_readRecord hbaseFound (TypeDefinition.record?_eq_some.mp hbody)) ?_
          refine .check fun _ _ => .read (on_registry content) (performs_ok ?_)
          have hcopied : (content.registry.modifyFields record fun own => ofBase.fields ++ own).get?
              record = some _ := (Registry.get?_modify_self _ _ _).trans (by rw [hfound]; rfl)
          have hset : (writeDefinition record fun definition =>
              { definition with base := baseDefinition.base }).on (content.withRegistry
                (content.registry.modifyFields record fun own => ofBase.fields ++ own)) =
              (.ok (), content.withRegistry ((content.registry.modifyFields record fun own =>
                ofBase.fields ++ own).setBase record baseDefinition.base)) :=
            on_writeDefinition hcopied _
          simp only [on_bind, on_writeFields hfound hrecord, hset, on_conformRecords, on_registry,
            on_pure]
          simp only [Content.withRegistry, Registry.nameOf_setBase, Registry.nameOf_modifyFields,
            Registry.nameOf_of_get? hfound, Registry.nameOf_of_get? hbaseFound]

theorem performs_deleteField (content : Content) (record : TypeHandle) (field : String) :
    Performs (deleteField record field) content (content.deleteField record field) := by
  unfold deleteField Content.deleteField
  refine .check fun ⟨index, own⟩ hown => performs_ok ?_
  obtain ⟨⟨definition, hfound, hrecord⟩, -⟩ := Content.checkOwnField_eq_ok hown
  simp only [on_bind, on_writeFields hfound hrecord, on_conformRecords, on_registry, on_pure,
    Content.withRegistry]
  rfl

/-! ## Enumerators -/

theorem performs_addEnumerator (content : Content) (handle : TypeHandle) :
    Performs (addEnumerator handle) content (content.addEnumerator handle) := by
  unfold addEnumerator Content.addEnumerator
  refine .check fun ⟨definition, enumeration⟩ hdefinition =>
    .read (on_registry content) (performs_ok ?_)
  obtain ⟨hfound, hbody⟩ := Legality.checkEnumeration_eq_ok.mp hdefinition
  simp only [on_bind, on_writeEnumerators hfound hbody, on_registry, on_pure, Content.withRegistry,
    Registry.nameOf_modifyEnumerators, Registry.nameOf_of_get? hfound]

theorem performs_setEnumeratorName (content : Content) (handle : TypeHandle) (index : Nat)
    (name : String) :
    Performs (setEnumeratorName handle index name) content
      (content.setEnumeratorName handle index name) := by
  unfold setEnumeratorName Content.setEnumeratorName
  refine .check fun ⟨definition, enumeration, enumerator⟩ hcheck => .check fun _ _ => performs_ok ?_
  obtain ⟨hfound, hbody, -⟩ := Content.checkEnumerator_eq_ok hcheck
  simp only [on_bind, on_writeEnumerators hfound hbody, on_registry, on_pure, Content.withRegistry,
    Registry.nameOf_modifyEnumerators, Registry.nameOf_of_get? hfound]

/-- What the enumerators become can be told from what they are. -/
theorem modifyEnumerators_eq {registry : Registry} {enumeration : Enumeration}
    (hfound : registry.get? handle = some definition)
    (hbody : definition.body = .enumeration enumeration)
    (change : List Enumerator → List Enumerator) :
    registry.modifyEnumerators handle change =
      registry.modifyEnumerators handle fun _ => change enumeration.enumerators := by
  simp only [Registry.modifyEnumerators, Registry.modify, hfound, TypeDefinition.mapEnumerators,
    hbody]

/-- The enumeration is still there when its new values are read. -/
theorem on_readValues_modifyEnumerators {enumeration : Enumeration}
    (hfound : content.registry.get? handle = some definition)
    (hbody : definition.body = .enumeration enumeration)
    (change : List Enumerator → List Enumerator) :
    (readValues handle).on
        (content.withRegistry (content.registry.modifyEnumerators handle change)) =
      (.ok (Enumeration.values ⟨change enumeration.enumerators⟩),
        content.withRegistry (content.registry.modifyEnumerators handle change)) := by
  have hchanged : (content.registry.modifyEnumerators handle change).get? handle =
      some (definition.mapEnumerators change) := by
    rw [Registry.modifyEnumerators, Registry.get?_modify_self, hfound, Option.map_some]
  refine on_readValues hchanged ?_
  rw [TypeDefinition.mapEnumerators, hbody]

theorem performs_setEnumeratorValue (content : Content) (handle : TypeHandle) (index : Nat)
    (value : Option Int64) :
    Performs (setEnumeratorValue handle index value) content
      (content.setEnumeratorValue handle index value) := by
  unfold setEnumeratorValue Content.setEnumeratorValue
  refine .check fun ⟨definition, enumeration, enumerator⟩ hcheck => ?_
  obtain ⟨hfound, hbody, -⟩ := Content.checkEnumerator_eq_ok hcheck
  refine .read (on_readValues hfound hbody) (performs_ok ?_)
  simp only [on_bind, on_writeEnumerators hfound hbody, on_readValues_modifyEnumerators hfound hbody,
    on_writeStores, on_registry, on_pure]
  simp only [Content.withRegistry, Registry.nameOf_modifyEnumerators, Registry.nameOf_of_get? hfound,
    modifyEnumerators_eq hfound hbody fun enumerators => enumerators.modify index _]
  rfl

theorem performs_deleteEnumerator (content : Content) (handle : TypeHandle) (index : Nat) :
    Performs (deleteEnumerator handle index) content (content.deleteEnumerator handle index) := by
  unfold deleteEnumerator Content.deleteEnumerator
  refine .check fun ⟨definition, enumeration, enumerator⟩ hcheck => ?_
  obtain ⟨hfound, hbody, -⟩ := Content.checkEnumerator_eq_ok hcheck
  refine .read (on_readValues hfound hbody) (performs_ok ?_)
  simp only [on_bind, on_writeEnumerators hfound hbody, on_readValues_modifyEnumerators hfound hbody,
    on_writeStores, on_registry, on_pure]
  simp only [Content.withRegistry, Registry.nameOf_modifyEnumerators, Registry.nameOf_of_get? hfound,
    modifyEnumerators_eq hfound hbody fun enumerators => enumerators.eraseIdx index]
  rfl

/-! ## Stores -/

theorem performs_addStore (content : Content) (store : String) :
    Performs (addStore store) content (content.addStore store) := by
  unfold addStore Content.addStore
  refine .check fun _ _ => .read (on_get content) (.refuseIf fun _ => performs_ok ?_)
  rfl

theorem performs_addRoot (content : Content) (store root : String) (type : TypeReference) :
    Performs (addRoot store root type) content (content.addRoot store root type) := by
  unfold addRoot Content.addRoot
  refine .check fun kept hkept => .check fun _ _ => .refuseIf fun _ => ?_
  refine .check fun _ _ => .check fun _ _ => performs_ok ?_
  have hfound := Content.checkStore_eq_ok.mp hkept
  simp only [on_bind, on_registry, on_writeStores, on_pure, hfound]

theorem performs_setRootValue (content : Content) (store root : String) (value : Json) :
    Performs (setRootValue store root value) content (content.setRootValue store root value) := by
  unfold setRootValue Content.setRootValue
  refine .check fun ⟨kept, previous⟩ hcheck => .read (on_registry content) (.refuseIf fun _ => ?_)
  obtain ⟨hkept, hroot⟩ := Content.checkRoot_eq_ok.mp hcheck
  have hslot : content.stores.root? store root = some previous :=
    Stores.root?_eq_some_iff.mpr ⟨kept, hkept, hroot⟩
  refine .read (on_get content) (performs_ok ?_)
  simp only [hslot, on_bind, on_writeStores, on_pure, hkept]

/-- Taking out a root that is not there takes out nothing. -/
theorem performs_deleteRoot (content : Content) (store root : String) :
    Performs (deleteRoot store root) content (content.deleteRoot store root) := by
  unfold deleteRoot Content.deleteRoot Content.checkRoot
  rw [bind_assoc]
  refine .check fun kept hkept => ?_
  have hfound := Content.checkStore_eq_ok.mp hkept
  cases hroot : NameMap.get? kept root with
  | some removed =>
      refine performs_ok ?_
      simp only [on_bind, on_writeStores, hfound, hroot, on_registry, on_pure]
  | none =>
      simp only [Performs, on_bind, on_writeStores, hfound, hroot, on_throw,
        NameMap.erase_of_get?_eq_none hroot, NameMap.insert_of_get?_eq_some hfound]
      rfl

end Edit

namespace Mutation

/-- Every mutation is carried out by its steps. -/
theorem performs_edit (mutation : Mutation) (content : Content) :
    mutation.edit.Performs content (mutation.carryOut content) := by
  cases mutation with
  | addStruct => exact Edit.performs_addType content _ _
  | addClass => exact Edit.performs_addType content _ _
  | addEnum => exact Edit.performs_addType content _ _
  | setTypeName type name => exact Edit.performs_setTypeName content type name
  | setRecordBaseType record base => exact Edit.performs_setRecordBaseType content record base
  | setRecordTable record enabled => exact Edit.performs_setRecordTable content record enabled
  | deleteType type => exact Edit.performs_deleteType content type
  | addField record => exact Edit.performs_addField content record
  | setFieldName record field name => exact Edit.performs_setFieldName content record field name
  | setFieldType record field type => exact Edit.performs_setFieldType content record field type
  | setFieldFlags record field flags => exact Edit.performs_setFieldFlags content record field flags
  | swapFields record first second => exact Edit.performs_swapFields content record first second
  | moveField source field target => exact Edit.performs_moveField content source field target
  | flattenBase record => exact Edit.performs_flattenBase content record
  | deleteField record field => exact Edit.performs_deleteField content record field
  | addEnumerator enumeration => exact Edit.performs_addEnumerator content enumeration
  | setEnumeratorName enumeration index name =>
      exact Edit.performs_setEnumeratorName content enumeration index name
  | setEnumeratorValue enumeration index value =>
      exact Edit.performs_setEnumeratorValue content enumeration index value
  | deleteEnumerator enumeration index =>
      exact Edit.performs_deleteEnumerator content enumeration index
  | addStore store => exact Edit.performs_addStore content store
  | addRoot store root type => exact Edit.performs_addRoot content store root type
  | setRootValue store root value => exact Edit.performs_setRootValue content store root value
  | deleteRoot store root => exact Edit.performs_deleteRoot content store root

end Mutation
end LiveSchema
