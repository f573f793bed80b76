import LiveSchema.Proofs.Mutation.OwnField
import LiveSchema.Proofs.Mutation.Revision
import LiveSchema.Proofs.Value.Fresh

/-!
# What a new type of a field does to stored values

Giving a field another type converts the value under its name in every object of the family.  The
conversion changes one key and leaves the others where they are.  What it makes holds no object of the
family, so the walk has nothing to do behind it; a conversion between scalars had nothing inside before,
either, and where the type stays the same, so does the value.
-/

namespace LiveSchema

/-- The step of the conversion of a field in one object. -/
def Stores.conversionAt (registry : Registry) (name : String) (source target : TypeReference)
    (place : Place) (_ : TypeHandle) (entries : Entries) : Entries × List Backup :=
  (convertedEntries registry name source target entries,
    if registry.classify source target = .preserved then []
    else [⟨place, none, (Entries.value? entries name).getD (registry.defaultValue source)⟩])

namespace Registry

/-- Converts the value of an object under a key, which was that of another object. -/
def convertUnder (registry : Registry) (key : String) (source target : TypeReference)
    (old : Json) : Json → Json :=
  (PathSegment.field key).modify fun _ => registry.convert source target (old.under key)

/-- The steps to the values of a field that gets another type. -/
def retypedSteps (registry : Registry) (record : TypeHandle) (own : Field)
    (target : TypeReference) : Barrier := fun type segment =>
  registry.isParentOf record type.handle && segment = .field own.name && own.type ≠ target

/-- The steps to the values of a field that are replaced by the default of another type. -/
def defaultedSteps (registry : Registry) (record : TypeHandle) (own : Field)
    (target : TypeReference) : Barrier := fun type segment =>
  registry.retypedSteps record own target type segment &&
    (registry.conversionBetween? own.type target).isNone

variable {registry after : Registry} {record handle : TypeHandle} {index : Nat} {own : Field}
  {target : TypeReference} {reference : TypeReference} {entries : Entries}

theorem retypedSteps_eq_true {segment : PathSegment} :
    registry.retypedSteps record own target reference segment = true ↔
      registry.isParentOf record reference.handle = true ∧ segment = .field own.name ∧
        own.type ≠ target := by
  simp [retypedSteps, and_assoc]

/-- A type avoids a record after one of its own fields has got another type, too. -/
theorem WellFormed.avoids_retyped (hwf : registry.WellFormed)
    (hafter : after = registry.modifyFields record fun fields =>
      fields.modify index fun own => { own with type := target })
    (hwfAfter : after.WellFormed) (havoids : registry.Avoids record target) :
    after.Avoids record target := by
  have hextends : after.Extends = registry.Extends := by rw [hafter, extends_modifyFields]
  refine havoids.of_agree hwf.toFormed hwfAfter.toFormed (fun handle => ?_) fun handle hout => ?_
  · rw [hextends]
    exact id
  · rw [hafter, hwf.allFields_modifyFields_of_not_extends _ hout]

section Retype

variable (hwf : registry.WellFormed) (hrecord : registry.IsRecord record)
  (hindex : (registry.ownFields record)[index]? = some own)

include hwf hrecord hindex

/-- What lies under the name of an own field is a value of this field. -/
theorem WellFormed.type_of_own_name {child : Child} {value : Json}
    (hextends : registry.Extends reference.handle record)
    (hchild : child ∈ registry.childValues reference value)
    (hsegment : child.segment = .field own.name) : child.type = own.type := by
  have hkind : registry.kind? reference.handle = some .record :=
    kind?_eq_record_iff.mpr (hwf.isRecord_of_extends hrecord hextends)
  obtain ⟨entries, rfl⟩ : ∃ entries, value = .object entries := by
    obtain ⟨definition, held, hfound, hbody⟩ := exists_record_of_kind? hkind
    cases value with
    | object entries => exact ⟨entries, rfl⟩
    | _ => exact absurd hchild (by simp [childValues, parts, hfound, hbody, Parts.children])
  obtain ⟨field, hfield, inner, -, rfl⟩ := (mem_childValues_of_record hkind).mp hchild
  have hown : own ∈ registry.allFields reference.handle :=
    (mem_allFields_iff hwf.inheritance).mpr ⟨record, hextends, List.mem_of_getElem? hindex⟩
  exact hwf.slot_unique (mem_slots_iff.mpr ⟨field, hfield, rfl, rfl⟩)
    (PathSegment.field.inj hsegment ▸ mem_slots_iff.mpr ⟨own, hown, rfl, rfl⟩)

/-- Nothing lies inside what is converted without a default, so the steps to it may be open. -/
theorem WellFormed.reachedIn_retypedSteps :
    registry.reachedIn (registry.retypedSteps record own target)
        (fun type => registry.isParentOf record type.handle) =
      registry.reachedIn (registry.defaultedSteps record own target)
        (fun type => registry.isParentOf record type.handle) := by
  funext root
  refine concerning_reached_congr (fun reference value child hchild hdiffer => ?_) _ _
  have hretyped : registry.retypedSteps record own target reference child.segment = true := by
    by_contra hopen
    rw [defaultedSteps, (Bool.not_eq_true _).mp hopen] at hdiffer
    exact hdiffer rfl
  obtain ⟨hfamily, hsegment, -⟩ := retypedSteps_eq_true.mp hretyped
  obtain ⟨⟨conversion, builtin⟩, hconversion⟩ :
      ∃ conversion, registry.conversionBetween? own.type target = some conversion := by
    rw [defaultedSteps, hretyped, Bool.true_and, ne_eq, eq_comm, Option.isNone_iff_eq_none] at hdiffer
    exact Option.ne_none_iff_exists'.mp hdiffer
  obtain ⟨⟨source, hsource, hsimple⟩, -⟩ := conversionBetween?_eq_some hconversion
  rw [hwf.type_of_own_name hrecord hindex ((isParentOf_iff _ _).mp hfamily) hchild
    hsegment]
  refine everywhere_of_childValues_eq_nil ?_ (childValues_of_simple hsource hsimple _)
  rw [← Bool.not_eq_true, isParentOf_iff]
  intro hextends
  obtain ⟨definition, hfound, hisRecord⟩ := hwf.isRecord_of_extends hrecord hextends
  obtain ⟨found, hfound', hbody⟩ := builtin?_eq_some.mp hsource
  obtain rfl := Option.some.inj (hfound.symm.trans hfound')
  obtain ⟨held, hheld⟩ := TypeDefinition.isRecord_iff.mp hisRecord
  exact absurd (hbody.symm.trans hheld) (by rintro ⟨⟩)

variable (hafter : after = registry.modifyFields record fun fields =>
    fields.modify index fun own => { own with type := target })
  (hwfAfter : after.WellFormed) (havoids : registry.Avoids record target)

include hafter hwfAfter havoids

/-- The conversion of one field revises an object as its change in place does. -/
theorem WellFormed.revises_convertField (hextends : after.Extends reference.handle record)
    (hconforms : registry.conforms reference (.object entries) = true) :
    RevisesObject True registry after record (registry.retypedSteps record own target)
      (fun _ => Stores.convertedEntries after own.name own.type target)
      (changeWhere (fun type => registry.isParentOf record type.handle)
        (after.convertUnder own.name own.type target)) reference entries := by
  have hextends' : registry.Extends reference.handle record := by
    rwa [hafter, extends_modifyFields] at hextends
  have hfamily : registry.isParentOf record reference.handle = true :=
    (isParentOf_iff _ _).mpr hextends'
  have hkind : registry.kind? reference.handle = some .record :=
    kind?_eq_record_iff.mpr (hwf.isRecord_of_extends hrecord hextends')
  obtain ⟨above, below, hold, hnew⟩ := hwf.allFields_modifyField
    (fun own => { own with type := target }) hrecord hindex hextends'
  rw [← hafter] at hnew
  have hown : own ∈ registry.allFields reference.handle := by
    rw [hold]
    exact List.mem_append_right _ List.mem_cons_self
  obtain ⟨held, hheld⟩ := hwf.exists_held hown hconforms
  have hkeys := hwf.keys_nodup hkind hconforms
  have hentries : Stores.convertedEntries after own.name own.type target entries =
      Entries.assign own.name (after.convert own.type target held) entries := by
    rw [Stores.convertedEntries, hheld, Option.getD_some]
  -- whether a step is closed depends on the name of the field alone
  have hclosed : ∀ field : Field, registry.retypedSteps record own target reference
      (.field field.name) = true ↔ field.name = own.name ∧ own.type ≠ target := by
    intro field
    rw [retypedSteps_eq_true]
    simp [hfamily]
  refine ⟨?_, ?_, .of_eq ?_, ?_, ?_⟩
  · rwa [hentries, Entries.keys_assign_of_mem (Entries.exists_value?_iff.mp ⟨held, hheld⟩)]
  · refine ⟨Entries.assign own.name (after.convert own.type target held) entries, ?_, ?_, ?_⟩
    · rw [changeWhere, if_pos hfamily, convertUnder, Json.under_object hheld]
      simp only [PathSegment.modify, Json.modifyEntry, Entries.modify, hheld]
    · rw [hentries]
      exact .of_eq rfl
    · rw [hentries]
      exact fun _ => rfl
  · rw [openFields, openFields, hold, hnew, List.filter_append, List.filter_append]
    refine congrArg _ ?_
    by_cases hsame : own.type = target
    · rw [← hsame]
    · rw [List.filter_cons_of_neg, List.filter_cons_of_neg]
      · simp [(hclosed own).mpr ⟨rfl, hsame⟩]
      · simp [(hclosed own).mpr ⟨rfl, hsame⟩]
  · intro field hfield
    rw [hentries, Entries.value?_assign]
    split
    next hname =>
        obtain ⟨-, hopen⟩ := List.mem_filter.mp hfield
        have hsame : own.type = target := by
          by_contra hne
          rw [(hclosed field).mpr ⟨hname.symm, hne⟩] at hopen
          exact absurd hopen (by simp)
        rw [convert, if_pos hsame, ← hname, hheld]
    next => rfl
  · intro field hfield hbarred inner hinner
    obtain ⟨hname, hne⟩ := (hclosed field).mp hbarred
    have htype : field.type = target := by
      refine hwfAfter.slot_unique (mem_slots_iff.mpr ⟨field, hfield, rfl, rfl⟩) ?_
      rw [hname]
      refine mem_slots_iff.mpr ⟨{ own with type := target }, ?_, rfl, rfl⟩
      rw [hnew]
      exact List.mem_append_right _ List.mem_cons_self
    rw [hname, hentries, Entries.value?_assign, if_pos rfl, Option.some.injEq] at hinner
    rw [htype, ← hinner]
    exact hwfAfter.everywhere_convert hne
      (hwf.avoids_retyped hafter hwfAfter havoids) held

/-- The conversion of a field converts, counts and keeps what the objects hold under it. -/
theorem WellFormed.tallyRecords_convert {stores : Stores}
    (h : stores.EveryRoot registry.ConformingRoot) :
    Stores.Like True
        (stores.tallyRecords after record
          (Stores.conversionAt after own.name own.type target)).2
        (stores.changedAt registry (registry.retypedSteps record own target)
          (fun type => registry.isParentOf record type.handle)
          (after.convertUnder own.name own.type target)) ∧
      (stores.tallyRecords after record
          (Stores.conversionAt after own.name own.type target)).1.count =
        (stores.reachedSites registry (registry.retypedSteps record own target)
          fun type => registry.isParentOf record type.handle).length ∧
      SameItems True
        (stores.tallyRecords after record
          (Stores.conversionAt after own.name own.type target)).1.backup
        ((stores.reachedSites registry (registry.retypedSteps record own target)
          fun type => registry.isParentOf record type.handle).flatMap
            (Stores.backupsAt (Stores.conversionAt after own.name own.type target))) := by
  have hextends : after.Extends = registry.Extends := by rw [hafter, extends_modifyFields]
  have hout : ∀ handle : TypeHandle, ¬ after.Extends handle record →
      registry.isParentOf record handle = false := by
    intro handle hnot
    rwa [← Bool.not_eq_true, isParentOf_iff, ← hextends]
  refine Stores.tallyRecords_of_sameButFamily
    (hafter ▸ hwf.sameButFamily_modifyFields _ hrecord (hafter ▸ hwfAfter)) hwf ?_ ?_ ?_ ?_ ?_
    (fun _ _ _ => rfl) h
  · intro handle hnot
    rw [hextends] at hnot
    rw [hafter, hwf.allFields_modifyFields_of_not_extends _ hnot]
  · intro reference
    rw [Bool.eq_iff_iff, isParentOf_iff, isParentOf_iff,
      hextends]
  · intro reference segment hnot
    simp [retypedSteps, hout _ hnot]
  · intro reference hnot
    exact hout _ hnot
  · intro reference entries hfamily hconforms
    exact hwf.revises_convertField hrecord hindex hafter hwfAfter havoids hfamily hconforms

end Retype

end Registry

namespace Content

variable {content : Content} {record : TypeHandle} {field : String} {type : TypeReference}
  {change : Change}

/-- The objects that a change of the type of a field concerns, in the order in which they are met:
those of the record and of everything that extends it, outermost first, but none inside a value that
is replaced by a default. -/
def objectsToConvert (content : Content) (record : TypeHandle) (own : Field)
    (type : TypeReference) : List Site :=
  content.stores.reachedSites content.registry (content.registry.defaultedSteps record own type)
    fun reference => content.registry.isParentOf record reference.handle

/-- The stores with the value under the field converted in each of these objects. -/
def convertedStores (content : Content) (after : Registry) (record : TypeHandle) (own : Field)
    (type : TypeReference) : Stores :=
  content.stores.changedAt content.registry (content.registry.defaultedSteps record own type)
    (fun reference => content.registry.isParentOf record reference.handle)
    (after.convertUnder own.name own.type type)

/-- What is kept of the objects before the conversion: nothing if it is harmless, and else the value
of each of them. -/
def convertedBackup (content : Content) (after : Registry) (record : TypeHandle) (own : Field)
    (type : TypeReference) : List Backup :=
  if after.classify own.type type = .preserved then []
  else (content.objectsToConvert record own type).map fun object =>
    ⟨object.place, none, object.value.under own.name⟩

/-- Every object that is met holds a value under the field. -/
theorem under_objectsToConvert (hwf : content.registry.WellFormed) (hconforms : content.Conforms)
    {own : Field} (hown : own ∈ content.registry.ownFields record) {object : Site}
    (hobject : object ∈ content.objectsToConvert record own type) :
    ∃ entries held, object.value = .object entries ∧
      Entries.value? entries own.name = some held := by
  obtain ⟨-, -, -, -, hfamily⟩ := Stores.mem_reachedSites hobject
  exact Stores.exists_held_of_mem_reachedSites hwf hown hconforms hobject
    ((Registry.isParentOf_iff _ _).mp hfamily)

/-- Giving a field another type converts what the objects hold under it, and nothing else. -/
theorem setFieldType_stores (hwf : content.registry.WellFormed) (hconforms : content.Conforms)
    (h : content.setFieldType record field type = .ok change) :
    ∃ own ∈ content.registry.ownFields record, own.name = field ∧
      change.content.stores =
        content.convertedStores change.content.registry record own type ∧
      ∃ tally, change.Reports tally ∧
        tally.count = (content.objectsToConvert record own type).length ∧
        tally.backup = content.convertedBackup change.content.registry record own type := by
  obtain ⟨index, own, after, hindex, rfl, hcheck, -, hafter, hcontent, hreports⟩ :=
    setFieldType_checked h
  have hown := List.mem_of_getElem? hindex
  obtain ⟨hrecord, hlegal, hfree⟩ := Legality.checkFieldType_eq_ok.mp hcheck
  have hwfAfter : after.WellFormed := hafter ▸ hwf.retypeField hindex hcheck
  have hall := hwf.tallyRecords_convert hrecord hindex hafter hwfAfter
    (hwf.avoids_of_findOpen? hlegal hfree) hconforms
  unfold Stores.reachedSites Stores.changedAt at hall
  rw [hwf.reachedIn_retypedSteps hrecord hindex] at hall
  obtain ⟨hstores, hcount, hbackup⟩ := hall
  rw [hcontent]
  refine ⟨own, hown, rfl, hstores.eq, _, hreports, hcount, (hbackup.order trivial).trans ?_⟩
  unfold convertedBackup
  split
  next hharmless =>
      refine List.flatMap_eq_nil_iff.mpr fun object _ => ?_
      unfold Stores.backupsAt
      split
      · exact if_pos hharmless
      · rfl
  next hharmful =>
      rw [List.map_eq_flatMap]
      refine List.flatMap_congr fun object hobject => ?_
      obtain ⟨entries, held, hentries, hheld⟩ := under_objectsToConvert hwf hconforms hown hobject
      simp only [Stores.backupsAt, hentries, Stores.conversionAt, hheld, Option.getD_some,
        Json.under_object hheld, if_neg hharmful]

end Content
end LiveSchema
