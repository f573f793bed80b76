import LiveSchema.Mutation.Carry
import LiveSchema.Proofs.Checks

/-!
# What mutations do

One lemma for each mutation: a mutation that is not refused has passed its checks, and its content is
the one stated here.  Everything about mutations is derived from these lemmas.
-/

namespace LiveSchema

/-- What a change of an element does not affect stays the same. -/
theorem map_modify_of_eq {α : Type u} {β : Type v} {g : α → β} {f : α → α}
    (h : ∀ a, g (f a) = g a) (list : List α) (index : Nat) :
    (list.modify index f).map g = list.map g := by
  refine List.ext_getElem? fun position => ?_
  rw [List.getElem?_map, List.getElem?_map, List.getElem?_modify, Option.map_eq_map,
    Option.map_map]
  congr 1
  funext a
  simp only [Function.comp_apply]
  split
  · exact h a
  · rfl

/-- An element after a change of one element was there or is the changed one. -/
theorem mem_modify {α : Type u} {f : α → α} {list : List α} {index : Nat} {a : α}
    (h : a ∈ list.modify index f) :
    a ∈ list ∨ ∃ old, list[index]? = some old ∧ a = f old := by
  obtain ⟨position, hposition⟩ := List.mem_iff_getElem?.mp h
  rw [List.getElem?_modify, Option.map_eq_map, Option.map_eq_some_iff] at hposition
  obtain ⟨old, hold, rfl⟩ := hposition
  split
  next hsame => exact Or.inr ⟨old, hsame ▸ hold, rfl⟩
  next => exact Or.inl (List.mem_of_getElem? hold)

/-- The change log says how many objects were met, and what of them was kept. -/
structure Change.Reports (change : Change) (tally : Tally) : Prop where
  migrated : Entries.value? change.params "migrated" = some (.ofNat tally.count)
  backup : Entries.value? change.params "backup" = some tally.backupJson

namespace Content

variable {content : Content} {handle record : TypeHandle} {change : Change}

theorem checkUserType_eq_ok {definition : TypeDefinition} :
    content.checkUserType handle = .ok definition ↔
      content.registry.get? handle = some definition ∧ definition.isBuiltin = false := by
  unfold checkUserType
  simp only [bind_eq_ok, Legality.definitionOf_eq_ok, refuse_if_eq_ok, Bool.not_eq_true]
  constructor
  · rintro ⟨found, hfound, huser, hsame⟩
    obtain rfl := pure_eq_ok.mp hsame
    exact ⟨hfound, huser⟩
  · rintro ⟨hfound, huser⟩
    exact ⟨definition, hfound, huser, rfl⟩

/-- The own field of a name is at the first position where a field has it. -/
theorem checkOwnField_eq_ok {name : String} {index : Nat} {field : Field}
    (h : content.checkOwnField record name = .ok (index, field)) :
    (∃ definition, content.registry.get? record = some definition ∧
        definition.isRecord = true) ∧
      (content.registry.ownFields record)[index]? = some field ∧ field.name = name := by
  unfold checkOwnField at h
  simp only [bind_eq_ok, Legality.checkRecord_eq_ok] at h
  obtain ⟨definition, hrecord, hrest⟩ := h
  split at hrest
  next => exact absurd hrest refuse_ne_ok
  next position hposition =>
      split at hrest
      next => exact absurd hrest refuse_ne_ok
      next found hfound =>
          cases pure_eq_ok.mp hrest
          refine ⟨⟨definition, hrecord⟩, hfound, ?_⟩
          obtain ⟨hbound, hname, -⟩ := List.findIdx?_eq_some_iff_getElem.mp hposition
          rw [List.getElem?_eq_getElem hbound, Option.some.injEq] at hfound
          simpa [hfound] using hname

theorem checkEnumerator_eq_ok {index : Nat} {definition : TypeDefinition}
    {enumeration : Enumeration} {enumerator : Enumerator}
    (h : content.checkEnumerator handle index = .ok (definition, enumeration, enumerator)) :
    content.registry.get? handle = some definition ∧
      definition.body = .enumeration enumeration ∧
        enumeration.enumerators[index]? = some enumerator := by
  unfold checkEnumerator at h
  simp only [bind_eq_ok, Prod.exists] at h
  obtain ⟨d, e, hcheck, hrest⟩ := h
  obtain ⟨hfound, hbody⟩ := Legality.checkEnumeration_eq_ok.mp hcheck
  split at hrest
  next found hindex =>
      cases pure_eq_ok.mp hrest
      exact ⟨hfound, hbody, hindex⟩
  next => exact absurd hrest refuse_ne_ok

theorem checkStore_eq_ok {store : String} {kept : Store} :
    content.checkStore store = .ok kept ↔ content.stores.get? store = some kept := by
  unfold checkStore
  cases content.stores.get? store with
  | none => simp [refuse]
  | some found => simp

theorem checkRoot_eq_ok {store root : String} {kept : Store} {value : Root} :
    content.checkRoot store root = .ok (kept, value) ↔
      content.stores.get? store = some kept ∧ NameMap.get? kept root = some value := by
  unfold checkRoot
  simp only [bind_eq_ok, checkStore_eq_ok]
  constructor
  · rintro ⟨found, hfound, hrest⟩
    split at hrest
    next held hheld =>
        cases pure_eq_ok.mp hrest
        exact ⟨hfound, hheld⟩
    next => exact absurd hrest refuse_ne_ok
  · rintro ⟨hfound, hheld⟩
    exact ⟨kept, hfound, by simp [hheld, pure, Except.pure]⟩

/-! ## Types -/

theorem addType_ok {base : String} {make : String → TypeDefinition}
    (h : content.addType base make = .ok change) :
    content.registry.resolve? (content.registry.freshTypeName base) = none ∧
      change.content = content.withRegistry
        (content.registry.declare (make (content.registry.freshTypeName base))) := by
  simp only [addType] at h
  split at h
  next => exact absurd h (by simp)
  next hfree =>
      cases h
      exact ⟨by simpa using hfree, rfl⟩

theorem setTypeName_ok {name : String} (h : content.setTypeName handle name = .ok change) :
    (∃ definition, content.registry.get? handle = some definition ∧
        definition.isBuiltin = false) ∧
      Legality.IsIdentifier name ∧
      (∀ existing, content.registry.resolve? name = some existing → existing = handle) ∧
      change.content = content.withRegistry (content.registry.rename handle name) := by
  unfold setTypeName at h
  simp only [bind_eq_ok, checkUserType_eq_ok, Legality.checkTypeName_eq_ok, pure_eq_ok] at h
  obtain ⟨definition, huser, -, ⟨hname, hfree⟩, rfl⟩ := h
  exact ⟨⟨definition, huser⟩, hname, hfree, rfl⟩

theorem setRecordBaseType_ok {base : Option TypeReference}
    (h : content.setRecordBaseType record base = .ok change) :
    Legality.checkBase content.registry record base = .ok () ∧
      change.content = ⟨content.registry.setBase record base,
        (content.stores.conformRecords (content.registry.setBase record base) record).2⟩ := by
  unfold setRecordBaseType at h
  simp only [bind_eq_ok, pure_eq_ok] at h
  obtain ⟨_, hcheck, rfl⟩ := h
  exact ⟨hcheck, rfl⟩

theorem setRecordBaseType_reports {base : Option TypeReference}
    (h : content.setRecordBaseType record base = .ok change) :
    change.Reports
      (content.stores.conformRecords (content.registry.setBase record base) record).1 := by
  unfold setRecordBaseType at h
  simp only [bind_eq_ok, pure_eq_ok] at h
  obtain ⟨-, -, rfl⟩ := h
  refine ⟨?_, ?_⟩
  · simp [Entries.value?]
  · simp [Entries.value?]

/-- The new flags of a record have passed their check. -/
theorem setRecordTable_ok {enabled : Bool}
    (h : content.setRecordTable record enabled = .ok change) :
    (∃ definition, content.registry.get? record = some definition ∧
        definition.isRecord = true) ∧
      ∃ flags, Legality.checkRecordFlags content.registry record flags = .ok () ∧
        change.content = content.withRegistry
          (content.registry.modifyRecord record fun own => { own with flags := flags }) := by
  unfold setRecordTable at h
  simp only [bind_eq_ok, Legality.checkRecord_eq_ok, pure_eq_ok] at h
  obtain ⟨definition, hrecord, _, hcheck, rfl⟩ := h
  exact ⟨⟨definition, hrecord⟩, _, hcheck, rfl⟩

theorem deleteType_ok (h : content.deleteType handle = .ok change) :
    (∃ definition, content.registry.get? handle = some definition ∧
        definition.isBuiltin = false) ∧
      (content.usages handle).filter Usage.isBlocking = [] ∧
      change.content = ⟨content.registry.remove handle,
        (removeRoots content.registry content.stores (dataRoots (content.usages handle))).2⟩ := by
  unfold deleteType at h
  simp only [bind_eq_ok, checkUserType_eq_ok] at h
  obtain ⟨definition, huser, hrest⟩ := h
  split at hrest
  next => simp [throw, throwThe, MonadExceptOf.throw, bind, Except.bind] at hrest
  next hfree =>
      cases pure_eq_ok.mp hrest
      exact ⟨⟨definition, huser⟩, by simpa using hfree, rfl⟩

/-- A type can be deleted just if it is a type of the user and no usage prevents it. -/
theorem exists_deleteType_iff : (∃ change, content.deleteType handle = .ok change) ↔
    (∃ definition, content.registry.get? handle = some definition ∧
        definition.isBuiltin = false) ∧
      (content.usages handle).filter Usage.isBlocking = [] := by
  constructor
  · rintro ⟨change, h⟩
    obtain ⟨huser, hfree, -⟩ := deleteType_ok h
    exact ⟨huser, hfree⟩
  · rintro ⟨⟨definition, huser⟩, hfree⟩
    unfold deleteType
    simp only [checkUserType_eq_ok.mpr huser, hfree, List.map_nil, bind, Except.bind]
    exact ⟨_, rfl⟩

/-- The log keeps the roots that were deleted along with a type. -/
theorem roots_deleteType (h : content.deleteType handle = .ok change) :
    Entries.value? change.params "roots" = some (.array
      (removeRoots content.registry content.stores (dataRoots (content.usages handle))).1) := by
  unfold deleteType at h
  simp only [bind_eq_ok] at h
  obtain ⟨definition, -, hrest⟩ := h
  split at hrest
  next => simp [throw, throwThe, MonadExceptOf.throw, bind, Except.bind] at hrest
  next =>
      cases pure_eq_ok.mp hrest
      simp [Entries.value?]

/-! ## Fields -/

/-- The fields of a record with a new one behind them. -/
def withNewField (name : String) (fields : List Field) : List Field :=
  fields ++ [⟨name, .plain Registry.void, .empty, ""⟩]

theorem addField_ok (h : content.addField record = .ok change) :
    (∃ definition, content.registry.get? record = some definition ∧
        definition.isRecord = true) ∧
      ∃ registry, registry = content.registry.modifyFields record
          (withNewField (freshFieldName content.registry record)) ∧
        change.content = ⟨registry, (content.stores.conformRecords registry record).2⟩ := by
  unfold addField at h
  simp only [bind_eq_ok, Legality.checkRecord_eq_ok, pure_eq_ok] at h
  obtain ⟨definition, hrecord, rfl⟩ := h
  exact ⟨⟨definition, hrecord⟩, _, rfl, rfl⟩

theorem answer_addField (h : content.addField record = .ok change) :
    change.answer = .name (freshFieldName content.registry record) := by
  unfold addField at h
  simp only [bind_eq_ok, pure_eq_ok] at h
  obtain ⟨definition, -, rfl⟩ := h
  rfl

theorem setFieldName_ok {field name : String}
    (h : content.setFieldName record field name = .ok change) :
    ∃ index own registry, (content.registry.ownFields record)[index]? = some own ∧
      own.name = field ∧
      Legality.checkFieldName content.registry record (some field) name = .ok () ∧
      registry = content.registry.modifyFields record (fun fields =>
        fields.modify index fun own => { own with name := name }) ∧
      change.content = ⟨registry, (content.stores.renameField registry record field name).2⟩ := by
  unfold setFieldName at h
  simp only [bind_eq_ok, Prod.exists, pure_eq_ok] at h
  obtain ⟨index, own, hown, _, hname, rfl⟩ := h
  obtain ⟨-, hindex, hsame⟩ := checkOwnField_eq_ok hown
  exact ⟨index, own, _, hindex, hsame, hname, rfl, rfl⟩

/-- The flags of a field have passed their check for its new type. -/
theorem setFieldType_checked {field : String} {type : TypeReference}
    (h : content.setFieldType record field type = .ok change) :
    ∃ index own registry, (content.registry.ownFields record)[index]? = some own ∧
      own.name = field ∧
      Legality.checkFieldType content.registry record (some type) = .ok () ∧
      Legality.checkFieldFlags content.registry record type own.flags = .ok () ∧
      registry = content.registry.modifyFields record (fun fields =>
        fields.modify index fun own => { own with type := type }) ∧
      change.content =
        ⟨registry, (content.stores.convertField registry record field own.type type).2⟩ ∧
      change.Reports (content.stores.convertField registry record field own.type type).1 := by
  unfold setFieldType at h
  simp only [bind_eq_ok, Prod.exists, pure_eq_ok] at h
  obtain ⟨index, own, hown, _, htype, _, hflags, rfl⟩ := h
  obtain ⟨-, hindex, rfl⟩ := checkOwnField_eq_ok hown
  refine ⟨index, own, _, hindex, rfl, htype, hflags, rfl, rfl, ?_, ?_⟩
  · simp [Entries.value?]
  · simp [Entries.value?]

theorem setFieldType_ok {field : String} {type : TypeReference}
    (h : content.setFieldType record field type = .ok change) :
    ∃ index own registry, (content.registry.ownFields record)[index]? = some own ∧
      own.name = field ∧
      Legality.checkFieldType content.registry record (some type) = .ok () ∧
      registry = content.registry.modifyFields record (fun fields =>
        fields.modify index fun own => { own with type := type }) ∧
      change.content =
        ⟨registry, (content.stores.convertField registry record field own.type type).2⟩ := by
  obtain ⟨index, own, registry, hindex, hname, htype, -, hregistry, hcontent, -⟩ :=
    setFieldType_checked h
  exact ⟨index, own, registry, hindex, hname, htype, hregistry, hcontent⟩

/-- The new flags of a field have passed their check. -/
theorem setFieldFlags_ok {field : String} {flags : FieldFlags}
    (h : content.setFieldFlags record field flags = .ok change) :
    (∃ definition, content.registry.get? record = some definition ∧
        definition.isRecord = true) ∧
      ∃ index own, (content.registry.ownFields record)[index]? = some own ∧
        Legality.checkFieldFlags content.registry record own.type flags = .ok () ∧
        change.content = content.withRegistry
          (content.registry.modifyFields record fun fields =>
            fields.modify index fun own => { own with flags := flags }) := by
  unfold setFieldFlags at h
  simp only [bind_eq_ok, Prod.exists, pure_eq_ok] at h
  obtain ⟨index, own, hown, _, hflags, rfl⟩ := h
  obtain ⟨hrecord, hindex, -⟩ := checkOwnField_eq_ok hown
  exact ⟨hrecord, index, own, hindex, hflags, rfl⟩

theorem swapFields_ok {first second : Nat}
    (h : content.swapFields record first second = .ok change) :
    (∃ definition, content.registry.get? record = some definition ∧
        definition.isRecord = true) ∧
      ∃ registry, registry = content.registry.modifyFields record
          (fun fields => exchange fields first second) ∧
        change.content = ⟨registry, (content.stores.conformRecords registry record).2⟩ := by
  unfold swapFields at h
  simp only [bind_eq_ok, Legality.checkRecord_eq_ok] at h
  obtain ⟨definition, hrecord, hrest⟩ := h
  split at hrest
  next => exact absurd hrest refuse_ne_ok
  next =>
      cases pure_eq_ok.mp hrest
      exact ⟨⟨definition, hrecord⟩, _, rfl, rfl⟩

/-- The flags of a field have passed their check for the record that it moves to. -/
theorem moveField_checked {source target : TypeHandle} {field : String}
    (h : content.moveField source field target = .ok change) :
    (∃ definition, content.registry.get? source = some definition ∧
        definition.isRecord = true) ∧
      (∃ definition, content.registry.get? target = some definition ∧
        definition.isRecord = true) ∧
      content.registry.isStrictAncestor source target = true ∧
      ∃ index own registry, (content.registry.ownFields source)[index]? = some own ∧
        own.name = field ∧
        Legality.checkFieldFlags content.registry target own.type own.flags = .ok () ∧
        registry = (content.registry.modifyFields source fun fields =>
          fields.eraseIdx index).modifyFields target (fun fields => own :: fields) ∧
        change.content = ⟨registry, (content.stores.conformRecords registry source).2⟩ ∧
        change.Reports (content.stores.conformRecords registry source).1 := by
  unfold moveField at h
  simp only [bind_eq_ok, Prod.exists, Legality.checkRecord_eq_ok, refuse_if_eq_ok, pure_eq_ok] at h
  obtain ⟨index, own, hown, definition, htarget, hderived, -, _, hflags, rfl⟩ := h
  obtain ⟨hsource, hindex, hname⟩ := checkOwnField_eq_ok hown
  refine ⟨hsource, ⟨definition, htarget⟩, by simpa using hderived, index, own, _, hindex, hname,
    hflags, rfl, rfl, ?_, ?_⟩
  · simp [Entries.value?]
  · simp [Entries.value?]

/-- The flags of every field of the base type have passed their check for the record that gets it. -/
theorem flattenBase_checked (h : content.flattenBase record = .ok change) :
    ∃ base definition ofBase registry, content.registry.baseOf? record = some base ∧
      content.registry.get? base = some definition ∧ definition.body = .record ofBase ∧
      (ofBase.fields.forM fun field => Legality.checkFieldFlags content.registry record field.type
        field.flags) = .ok () ∧
      registry = (content.registry.modifyFields record fun own => ofBase.fields ++ own).setBase
        record definition.base ∧
      change.content = ⟨registry, (content.stores.conformRecords registry record).2⟩ := by
  unfold flattenBase at h
  simp only [bind_eq_ok, Legality.checkRecord_eq_ok] at h
  obtain ⟨recordDefinition, -, hrest⟩ := h
  split at hrest
  next => exact absurd hrest refuse_ne_ok
  next base hbase =>
      simp only [bind_eq_ok, Legality.definitionOf_eq_ok] at hrest
      obtain ⟨definition, hfound, -, -, hrest⟩ := hrest
      split at hrest
      next => exact absurd hrest (by simp)
      next ofBase hofBase =>
          simp only [bind_eq_ok, pure_eq_ok] at hrest
          obtain ⟨_, hflags, rfl⟩ := hrest
          refine ⟨base, definition, ofBase, _, hbase, hfound, ?_, hflags, rfl, rfl⟩
          unfold TypeDefinition.record? at hofBase
          split at hofBase
          next hbody => rw [hbody, Option.some.inj hofBase]
          next => exact absurd hofBase (by simp)

theorem flattenBase_ok (h : content.flattenBase record = .ok change) :
    ∃ base definition ofBase registry, content.registry.baseOf? record = some base ∧
      content.registry.get? base = some definition ∧ definition.body = .record ofBase ∧
      registry = (content.registry.modifyFields record fun own => ofBase.fields ++ own).setBase
        record definition.base ∧
      change.content = ⟨registry, (content.stores.conformRecords registry record).2⟩ := by
  obtain ⟨base, definition, ofBase, registry, hbase, hfound, hbody, -, hregistry, hcontent⟩ :=
    flattenBase_checked h
  exact ⟨base, definition, ofBase, registry, hbase, hfound, hbody, hregistry, hcontent⟩

/-- The deleted field is the own field of the name. -/
theorem deleteField_checked {field : String} (h : content.deleteField record field = .ok change) :
    (∃ definition, content.registry.get? record = some definition ∧
        definition.isRecord = true) ∧
      ∃ index own registry, (content.registry.ownFields record)[index]? = some own ∧
        own.name = field ∧
        registry = content.registry.modifyFields record (fun fields => fields.eraseIdx index) ∧
        change.content = ⟨registry, (content.stores.conformRecords registry record).2⟩ ∧
        change.Reports (content.stores.conformRecords registry record).1 := by
  unfold deleteField at h
  simp only [bind_eq_ok, Prod.exists, pure_eq_ok] at h
  obtain ⟨index, own, hown, rfl⟩ := h
  obtain ⟨hrecord, hindex, hname⟩ := checkOwnField_eq_ok hown
  refine ⟨hrecord, index, own, _, hindex, hname, rfl, rfl, ?_, ?_⟩
  · simp [Entries.value?]
  · simp [Entries.value?]

/-! ## Enumerators -/

/-- The enumerators of an enumeration with a new one behind them. -/
def withNewEnumerator (name : String) (enumerators : List Enumerator) : List Enumerator :=
  enumerators ++ [⟨name, none, ""⟩]

theorem addEnumerator_ok (h : content.addEnumerator handle = .ok change) :
    ∃ definition enumeration, content.registry.get? handle = some definition ∧
      definition.body = .enumeration enumeration ∧
        change.content = content.withRegistry (content.registry.modifyEnumerators handle
          (withNewEnumerator (freshEnumeratorName content.registry handle enumeration))) := by
  unfold addEnumerator at h
  simp only [bind_eq_ok, Prod.exists, Legality.checkEnumeration_eq_ok, pure_eq_ok] at h
  obtain ⟨definition, enumeration, ⟨hfound, hbody⟩, rfl⟩ := h
  exact ⟨definition, enumeration, hfound, hbody, rfl⟩

theorem setEnumeratorName_ok {index : Nat} {name : String}
    (h : content.setEnumeratorName handle index name = .ok change) :
    ∃ definition enumeration, content.registry.get? handle = some definition ∧
      definition.body = .enumeration enumeration ∧
        Legality.checkEnumeratorName content.registry handle (some index) name = .ok () ∧
        change.content = content.withRegistry (content.registry.modifyEnumerators handle
          fun enumerators => enumerators.modify index fun own => { own with name := name }) := by
  unfold setEnumeratorName at h
  simp only [bind_eq_ok, Prod.exists, pure_eq_ok] at h
  obtain ⟨definition, enumeration, enumerator, hcheck, _, hname, rfl⟩ := h
  obtain ⟨hfound, hbody, -⟩ := checkEnumerator_eq_ok hcheck
  exact ⟨definition, enumeration, hfound, hbody, hname, rfl⟩

/-- What a renumbering of an enumeration leaves: other enumerators, which bring no new name, and stored
values that follow a mapping of the old numbers to the new ones. -/
def Renumbered (content : Content) (handle : TypeHandle) (after : Content) : Prop :=
  ∃ definition enumeration, content.registry.get? handle = some definition ∧
    definition.body = .enumeration enumeration ∧ ∃ g registry mapping removed,
      ((g enumeration.enumerators).map Enumerator.name).Sublist
        (enumeration.enumerators.map Enumerator.name) ∧
      registry = content.registry.modifyEnumerators handle g ∧
        after = ⟨registry, (content.stores.renumber registry handle mapping removed).2⟩

/-- The enumerator at the position gets the value, and stored values follow the new numbers. -/
theorem setEnumeratorValue_checked {index : Nat} {value : Option Int64}
    (h : content.setEnumeratorValue handle index value = .ok change) :
    ∃ definition, ∃ old new : Enumeration, ∃ registry,
      content.registry.get? handle = some definition ∧ definition.body = .enumeration old ∧
        new = ⟨old.enumerators.modify index fun own => { own with value := value }⟩ ∧
        registry = content.registry.modifyEnumerators handle (fun _ => new.enumerators) ∧
        change.content = ⟨registry,
          (content.stores.renumber registry handle (old.values.zip new.values) none).2⟩ := by
  unfold setEnumeratorValue at h
  simp only [bind_eq_ok, Prod.exists, pure_eq_ok] at h
  obtain ⟨definition, enumeration, enumerator, hcheck, rfl⟩ := h
  obtain ⟨hfound, hbody, -⟩ := checkEnumerator_eq_ok hcheck
  exact ⟨definition, enumeration, _, _, hfound, hbody, rfl, rfl, rfl⟩

theorem setEnumeratorValue_ok {index : Nat} {value : Option Int64}
    (h : content.setEnumeratorValue handle index value = .ok change) :
    content.Renumbered handle change.content := by
  obtain ⟨definition, old, new, registry, hfound, hbody, rfl, hregistry, hcontent⟩ :=
    setEnumeratorValue_checked h
  have hnames : ∀ own : Enumerator, Enumerator.name { own with value := value } = own.name :=
    fun _ => rfl
  refine ⟨definition, old, hfound, hbody, _, _, _, _, ?_, hregistry, hcontent⟩
  simp only [map_modify_of_eq hnames, List.Sublist.refl]

/-- The enumerator at the position goes, and stored values follow the new numbers. -/
theorem deleteEnumerator_checked {index : Nat}
    (h : content.deleteEnumerator handle index = .ok change) :
    ∃ definition, ∃ old new : Enumeration, ∃ registry,
      content.registry.get? handle = some definition ∧ definition.body = .enumeration old ∧
        index < old.enumerators.length ∧
        new = ⟨old.enumerators.eraseIdx index⟩ ∧
        registry = content.registry.modifyEnumerators handle (fun _ => new.enumerators) ∧
        change.content = ⟨registry, (content.stores.renumber registry handle
          ((old.values.eraseIdx index).zip new.values)
          (some (old.values[index]?.getD 0, new.defaultValue))).2⟩ := by
  unfold deleteEnumerator at h
  simp only [bind_eq_ok, Prod.exists, pure_eq_ok] at h
  obtain ⟨definition, enumeration, enumerator, hcheck, rfl⟩ := h
  obtain ⟨hfound, hbody, hindex⟩ := checkEnumerator_eq_ok hcheck
  exact ⟨definition, enumeration, _, _, hfound, hbody, (List.getElem?_eq_some_iff.mp hindex).1, rfl,
    rfl, rfl⟩

theorem deleteEnumerator_ok {index : Nat}
    (h : content.deleteEnumerator handle index = .ok change) :
    content.Renumbered handle change.content := by
  obtain ⟨definition, old, new, registry, hfound, hbody, -, rfl, hregistry, hcontent⟩ :=
    deleteEnumerator_checked h
  exact ⟨definition, old, hfound, hbody, _, _, _, _, (List.eraseIdx_sublist _ index).map _, hregistry,
    hcontent⟩

/-! ## Stores -/

theorem addStore_ok {store : String} (h : content.addStore store = .ok change) :
    Legality.IsIdentifier store ∧ content.stores.contains store = false ∧
      change.content = { content with stores := content.stores.insert store NameMap.empty } := by
  unfold addStore at h
  simp only [bind_eq_ok, Legality.checkIdentifier_eq_ok, refuse_if_eq_ok, pure_eq_ok,
    Bool.not_eq_true] at h
  obtain ⟨-, hname, hfree, rfl⟩ := h
  exact ⟨hname, hfree, rfl⟩

theorem addRoot_ok {store root : String} {type : TypeReference}
    (h : content.addRoot store root type = .ok change) :
    ∃ kept, content.stores.get? store = some kept ∧ Legality.IsIdentifier root ∧
      NameMap.contains kept root = false ∧
      Legality.referenceViolation? content.registry type = none ∧
      change.content = { content with
        stores := content.stores.insert store
          (NameMap.insert kept root ⟨type, content.registry.defaultValue type⟩) } := by
  unfold addRoot at h
  simp only [bind_eq_ok, checkStore_eq_ok, Legality.checkIdentifier_eq_ok, refuse_if_eq_ok,
    Legality.checkReference_eq_ok, pure_eq_ok, Bool.not_eq_true] at h
  obtain ⟨kept, hkept, -, hname, hfree, -, hlegal, -, -, rfl⟩ := h
  exact ⟨kept, hkept, hname, hfree, hlegal, rfl⟩

theorem setRootValue_ok {store root : String} {value : Json}
    (h : content.setRootValue store root value = .ok change) :
    ∃ kept previous, content.stores.get? store = some kept ∧
      NameMap.get? kept root = some previous ∧
      content.registry.conforms previous.type value = true ∧
      change.content = { content with
        stores := content.stores.insert store
          (NameMap.insert kept root ⟨previous.type, value⟩) } := by
  unfold setRootValue at h
  simp only [bind_eq_ok, Prod.exists, checkRoot_eq_ok, refuse_if_eq_ok, pure_eq_ok] at h
  obtain ⟨kept, previous, ⟨hkept, hroot⟩, hfits, rfl⟩ := h
  exact ⟨kept, previous, hkept, hroot, by simpa using hfits, rfl⟩

theorem deleteRoot_ok {store root : String}
    (h : content.deleteRoot store root = .ok change) :
    ∃ kept removed, content.stores.get? store = some kept ∧
      NameMap.get? kept root = some removed ∧
      change.content = { content with
        stores := content.stores.insert store (NameMap.erase kept root) } := by
  unfold deleteRoot at h
  simp only [bind_eq_ok, Prod.exists, checkRoot_eq_ok, pure_eq_ok] at h
  obtain ⟨kept, removed, ⟨hkept, hroot⟩, rfl⟩ := h
  exact ⟨kept, removed, hkept, hroot, rfl⟩

end Content

end LiveSchema
