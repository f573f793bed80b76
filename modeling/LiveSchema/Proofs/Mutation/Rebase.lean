import LiveSchema.Proofs.Atomicity
import LiveSchema.Proofs.Mutation.Conformance
import LiveSchema.Proofs.Value.Fresh

/-!
# Stored values under another base type

A change of the base type gives the objects of the record, and of everything that extends it, exactly
the fields that they should have.  A value is kept under its name, even where the old and the new base
types declare a field of that name with different types.  These values decide whether all roots
conform afterwards.
-/

namespace LiveSchema

namespace Registry

variable {registry : Registry} {record : TypeHandle} {candidate : Option TypeReference}
  {stores : Stores}

/-- A change of the base type changes the fields of the family only. -/
theorem WellFormed.sameButFamily_setBase (hwf : registry.WellFormed)
    (hcheck : Legality.checkBase registry record candidate = .ok ()) :
    SameButFamily registry (registry.setBase record candidate) record := by
  have hafter := hwf.setBase hcheck
  have hagree : AgreeApart registry (registry.setBase record candidate) record :=
    agreeApart_modify registry record _
  obtain ⟨d, hd, hrecord, -⟩ := Legality.checkBase_eq_ok.mp hcheck
  refine hafter.sameButFamily (kind?_setBase candidate) ?_ fun handle hout => ?_
  · rw [← kind?_eq_record_iff, kind?_setBase, kind?_eq_record_iff]
    exact ⟨d, hd, hrecord⟩
  · rw [hagree.extends_iff] at hout
    exact hagree.allFields_of_not_extends hwf.inheritance hafter.inheritance hout

/-- Where a value is kept under a name whose type has changed, an object that conforms holds a value
that conforms to the new type. -/
theorem SameButFamily.retypedFit_of_conforms {before after : Registry}
    (hsame : SameButFamily before after record) {reference : TypeReference} {value : Json}
    (h : after.conforms reference value = true) :
    RetypedFit before after record reference value := by
  rintro hextends entries rfl name type inner ⟨hslot, -⟩ hinner
  have hinside := (inside_record_iff (hsame.kinds _ hextends).2).mpr ⟨name, hslot, hinner⟩
  exact hinside.conforms h

/-- After objects were given exactly the fields they should have, all roots conform just if every value
that was kept under a name whose type has changed conforms to the new type. -/
theorem SameButFamily.conformingRoot_iff {before after : Registry}
    (hsame : SameButFamily before after record) (hbefore : before.WellFormed)
    (h : stores.EveryRoot before.ConformingRoot) :
    (stores.conformRecords after record).2.EveryRoot after.ConformingRoot ↔
      (stores.conformRecords after record).2.EveryRoot fun root =>
        after.Everywhere (RetypedFit before after record) root.type root.value := by
  constructor
  · intro hconforms store name root hroot type inner hwithin
    exact hsame.retypedFit_of_conforms
      (everywhere_of_conforms (hconforms store name root hroot) type inner hwithin)
  · intro hfits
    rw [Stores.conformRecords_snd] at hfits ⊢
    exact (hsame.refits_conformed hbefore).conformingRoot h hfits

/-- An object of the family whose fields are scalars is revised, and nothing inside it. -/
theorem revisedRoot_of_scalar_fields {reference : TypeReference} {entries : Entries}
    {g : TypeHandle → Entries → Entries} (hkind : registry.kind? reference.handle = some .record)
    (hextends : registry.Extends reference.handle record)
    (hscalar : ∀ field ∈ registry.allFields reference.handle,
      (registry.builtin? field.type.handle).any Builtin.isScalar = true ∧
        registry.isParentOf record field.type.handle = false) :
    registry.revisedRoot (registry.reviseFamily record g) ⟨reference, .object entries⟩ =
      ⟨reference, .object (g reference.handle entries)⟩ := by
  have hobject := reviseFamily_of_extends (g := g) hextends entries
  rw [revisedRoot_eq_of_idle]
  · exact congrArg (Root.mk reference) hobject
  · intro child hchild
    rw [hobject] at hchild
    obtain ⟨field, hfield, inner, -, rfl⟩ := (mem_childValues_of_record hkind).mp hchild
    obtain ⟨hbuiltin, hout⟩ := hscalar field hfield
    obtain ⟨builtin, hfound, hsimple⟩ : ∃ builtin,
        registry.builtin? field.type.handle = some builtin ∧ builtin.isScalar = true := by
      simpa [Option.any_eq_true] using hbuiltin
    refine everywhere_of_childValues_eq_nil (reviseFamily_of_not_extends ?_ inner)
      (childValues_of_simple hfound (.inl hsimple) inner)
    rw [← isParentOf_iff, hout]
    exact Bool.false_ne_true

end Registry

namespace Database

open Registry

variable {digest : String → String} {database : Database}

/-- After a change of the base type of a record, all roots conform just if, in every object of the
record and of what extends it, each field that was an effective field of another type before holds a
value that conforms to its new type. -/
theorem conforms_setBase_iff_of_reachable (hreachable : Reachable digest database)
    (hconforms : database.content.Conforms) (time : Timestamp) (files : Directory)
    (record : TypeHandle) (base : Option TypeReference) {answer : Answer}
    (hok : (database.apply digest time files (.setRecordBaseType record base)).outcome =
      .ok answer) :
    (database.apply digest time files (.setRecordBaseType record base)).database.content.Conforms ↔
      (database.apply digest time files
        (.setRecordBaseType record base)).database.content.stores.EveryRoot fun root =>
          (database.content.registry.setBase record base).Everywhere
            (Registry.RetypedFit database.content.registry
              (database.content.registry.setBase record base) record) root.type root.value := by
  rcases apply_content_cases digest database time files (.setRecordBaseType record base) with
    ⟨error, herror, -⟩ | ⟨change, hchange, hcontent⟩
  · simp [apply, herror] at hok
  · have hwf := hreachable.wellFormed
    obtain ⟨hcheck, hchanged⟩ := Content.setRecordBaseType_ok hchange
    rw [hcontent, hchanged]
    exact (hwf.sameButFamily_setBase hcheck).conformingRoot_iff hwf hconforms

/-- Where the only root is an object of the record, and the fields of the record are scalars then, the
root gets exactly these fields. -/
theorem apply_setBase_of_single (digest : String → String) {registry : Registry}
    {record : TypeHandle} {base : Option TypeReference} {name : String} {entries kept : Entries}
    (hproject : database.project = none)
    (hcontent : database.content = ⟨registry, .single name ⟨.plain record, .object entries⟩⟩)
    (hcheck : Legality.checkBase registry record base = .ok ())
    (hkept : (registry.setBase record base).conformed record entries = kept)
    (hscalar : ∀ field ∈ (registry.setBase record base).allFields record,
      ((registry.setBase record base).builtin? field.type.handle).any Builtin.isScalar = true ∧
        (registry.setBase record base).isParentOf record field.type.handle = false)
    (time : Timestamp) (files : Directory) :
    (database.apply digest time files (.setRecordBaseType record base)).outcome = .ok .done ∧
      (database.apply digest time files (.setRecordBaseType record base)).database.content =
        ⟨registry.setBase record base, .single name ⟨.plain record, .object kept⟩⟩ := by
  have hallowed : Legality.checkBase database.content.registry record base = .ok () := by
    rw [hcontent]
    exact hcheck
  obtain ⟨change, hchange, hanswer, hafter⟩ := database.content.exists_setRecordBaseType hallowed
  have hkind : (registry.setBase record base).kind? record = some .record := by
    obtain ⟨definition, hfound, hrecord, -⟩ := Legality.checkBase_eq_ok.mp hcheck
    rw [kind?_setBase, kind?_eq_record_iff]
    exact ⟨definition, hfound, hrecord⟩
  have hroot : (registry.setBase record base).revisedRoot ((registry.setBase record base).reviseFamily
      record (registry.setBase record base).conformed) ⟨.plain record, .object entries⟩ =
        ⟨.plain record, .object kept⟩ := by
    rw [← hkept]
    exact revisedRoot_of_scalar_fields hkind .refl hscalar
  refine ⟨(outcome_of_carryOut hproject time files hchange).trans (congrArg Except.ok hanswer),
    (apply_content_of_carryOut time files hchange).trans (hafter.trans ?_)⟩
  rw [hcontent, Stores.conformRecords_snd, Stores.revised_single, hroot]

/-! ## Two bases with a field of one name -/

/-- Three structs, of which the first two have a field of one name.  That of the second struct is an
integer, and the third struct derives from the first. -/
def basedStructs : List Mutation :=
  [.addStruct, .addStruct, .addStruct, .addField ⟨37⟩, .addField ⟨38⟩,
    .setFieldType ⟨38⟩ "field1" (.plain ⟨5⟩), .setRecordBaseType ⟨39⟩ (some (.plain ⟨37⟩))]

/-- There is a root of the third struct. -/
@[irreducible]
def basedRoot : Database :=
  ofMutations (basedStructs ++ [.addRoot "main" "root" (.plain ⟨39⟩)])

theorem reachable_basedRoot : Reachable id basedRoot := by
  unfold basedRoot
  exact reachable_ofMutations _

/-- The types when both fields have no type yet, -/
def twoBases : Registry :=
  firstField.modifyFields ⟨38⟩ fun fields => fields ++ [⟨"field1", .plain void, .empty, ""⟩]

/-- when the second one is an integer, -/
def retypedBases : Registry :=
  twoBases.modifyFields ⟨38⟩ fun fields =>
    fields.modify 0 fun own => { own with type := .plain ⟨5⟩ }

/-- and those of the root. -/
def basedTypes : Registry :=
  retypedBases.setBase ⟨39⟩ (some (.plain ⟨37⟩))

theorem hasOnlyTypes_basedStructs : (ofMutations basedStructs).HasOnlyTypes basedTypes := by
  have hname : Content.freshFieldName firstField ⟨38⟩ = "field1" :=
    freshFieldName_of_no_fields ⟨_, rfl, rfl⟩ rfl (by decide)
  have hbases : (ofMutations [.addStruct, .addStruct, .addStruct, .addField ⟨37⟩,
      .addField ⟨38⟩]).HasOnlyTypes twoBases :=
    (hasOnlyTypes_firstField.addField ⟨0, 0⟩ NameMap.empty rfl hname).concat
  have htype : Legality.checkFieldType twoBases ⟨38⟩ (some (.plain ⟨5⟩)) = .ok () :=
    Legality.checkFieldType_eq_ok.mpr ⟨⟨_, rfl, rfl⟩, rfl, findOpen?_plain_eq_none (by decide) rfl⟩
  have hbase : Legality.checkBase retypedBases ⟨39⟩ (some (.plain ⟨37⟩)) = .ok () :=
    checkBase_of_flat rfl rfl rfl rfl (by decide)
  have hretyped : (ofMutations [.addStruct, .addStruct, .addStruct, .addField ⟨37⟩,
      .addField ⟨38⟩, .setFieldType ⟨38⟩ "field1" (.plain ⟨5⟩)]).HasOnlyTypes retypedBases :=
    (hbases.setFieldType ⟨0, 0⟩ NameMap.empty rfl htype rfl).concat
  exact (hretyped.setRecordBaseType ⟨0, 0⟩ NameMap.empty hbase).concat

theorem get?_basedTypes : basedTypes.get? ⟨39⟩ = some {
    name := "Struct3", base := some (.plain ⟨37⟩), body := .record ⟨.struct, [], .empty⟩ } := rfl

theorem content_basedRoot :
    basedRoot.content = ⟨basedTypes, .single "root" ⟨.plain ⟨39⟩, .object [("field1", .null)]⟩⟩ := by
  have hvoid : basedTypes.get? void = some (.ofBuiltin .void) := rfl
  have hfields : basedTypes.allFields ⟨39⟩ = [⟨"field1", .plain void, .empty, ""⟩] := rfl
  have hlegal : Legality.checkReference basedTypes (.plain ⟨39⟩) = .ok () := rfl
  unfold basedRoot
  rw [ofMutations_concat]
  exact hasOnlyTypes_basedStructs.addRoot_of_single_field ⟨0, 0⟩ NameMap.empty rfl
    checkIdentifier_root hlegal get?_basedTypes rfl hfields hvoid rfl (by decide) (by decide) rfl

theorem conforms_basedRoot : basedRoot.content.Conforms := by
  unfold basedRoot
  exact hasOnlyTypes_basedStructs.conforms_concat id

/-- Deriving from the second struct instead, the third one has an integer under the name of its only
field.  The root keeps its null there, and does not conform.  If the third struct derives from nothing,
the root loses the field, and conforms. -/
theorem conforms_setBase_of_basedRoot :
    let rebased := basedRoot.apply id ⟨1, 0⟩ NameMap.empty
      (.setRecordBaseType ⟨39⟩ (some (.plain ⟨38⟩)))
    let unbased := basedRoot.apply id ⟨1, 0⟩ NameMap.empty (.setRecordBaseType ⟨39⟩ none)
    basedRoot.content.Conforms ∧
      basedRoot.content.stores.root? "main" "root" =
        some ⟨.plain ⟨39⟩, .object [("field1", .null)]⟩ ∧
      rebased.outcome = .ok .done ∧ rebased.database.content.stores.root? "main" "root" =
        some ⟨.plain ⟨39⟩, .object [("field1", .null)]⟩ ∧ ¬ rebased.database.content.Conforms ∧
      unbased.outcome = .ok .done ∧ unbased.database.content.stores.root? "main" "root" =
        some ⟨.plain ⟨39⟩, .object []⟩ ∧ unbased.database.content.Conforms := by
  dsimp only
  have hregistry : basedRoot.content.registry = basedTypes :=
    congrArg Content.registry content_basedRoot
  have hchecked : Legality.checkBase basedTypes ⟨39⟩ (some (.plain ⟨38⟩)) = .ok () :=
    checkBase_of_flat rfl rfl rfl rfl (by decide)
  have hkept : (basedTypes.setBase ⟨39⟩ (some (.plain ⟨38⟩))).conformed ⟨39⟩
      [("field1", .null)] = [("field1", .null)] := by
    have hfields : (basedTypes.setBase ⟨39⟩ (some (.plain ⟨38⟩))).allFields ⟨39⟩ =
        [⟨"field1", .plain ⟨5⟩, .empty, ""⟩] := rfl
    rw [conformed, conform, hfields]
    rfl
  have hrebased := apply_setBase_of_single id reachable_basedRoot.project_eq_none content_basedRoot
    hchecked hkept (by decide) ⟨1, 0⟩ NameMap.empty
  have hnone : (basedTypes.setBase ⟨39⟩ none).allFields ⟨39⟩ = [] := rfl
  have hremoved : Legality.checkBase basedTypes ⟨39⟩ none = .ok () :=
    Legality.checkBase_eq_ok.mpr ⟨_, get?_basedTypes, rfl, fun _ hnone => absurd hnone (by simp)⟩
  have hlost : (basedTypes.setBase ⟨39⟩ none).conformed ⟨39⟩ [("field1", .null)] = [] := by
    rw [conformed, conform, hnone]
    rfl
  have hunbased := apply_setBase_of_single id reachable_basedRoot.project_eq_none content_basedRoot
    hremoved hlost (by simp [hnone]) ⟨1, 0⟩ NameMap.empty
  refine ⟨conforms_basedRoot, ?_, hrebased.1, ?_, fun hafter => ?_, hunbased.1, ?_, ?_⟩
  · rw [content_basedRoot]
    exact Stores.root?_single
  · rw [hrebased.2]
    exact Stores.root?_single
  · have hfits := (conforms_setBase_iff_of_reachable reachable_basedRoot conforms_basedRoot ⟨1, 0⟩
      NameMap.empty ⟨39⟩ (some (.plain ⟨38⟩)) hrebased.1).mp hafter
    rw [hrebased.2, Stores.everyRoot_single_iff, hregistry] at hfits
    have hretyped : Retyped basedTypes (basedTypes.setBase ⟨39⟩ (some (.plain ⟨38⟩))) ⟨39⟩ "field1"
        (.plain ⟨5⟩) :=
      ⟨by decide, .plain void, by decide, by decide⟩
    have hinteger : (basedTypes.setBase ⟨39⟩ (some (.plain ⟨38⟩))).builtin?
        (TypeReference.plain ⟨5⟩).handle = some (.integral ⟨true, .w32⟩) := rfl
    have hfit : RetypedFit basedTypes (basedTypes.setBase ⟨39⟩ (some (.plain ⟨38⟩))) ⟨39⟩
        (.plain ⟨39⟩) (.object [("field1", .null)]) := hfits.here
    have hnull := hfit .refl [("field1", .null)] rfl "field1" (.plain ⟨5⟩) .null hretyped rfl
    exact absurd ((conforms_simple_iff hinteger (.inl rfl)).mp hnull) (by decide)
  · rw [hunbased.2]
    exact Stores.root?_single
  · refine (conforms_setBase_iff_of_reachable reachable_basedRoot conforms_basedRoot ⟨1, 0⟩
      NameMap.empty ⟨39⟩ none hunbased.1).mpr ?_
    rw [hunbased.2, Stores.everyRoot_single_iff, hregistry]
    have hkind : (basedTypes.setBase ⟨39⟩ none).kind? (TypeReference.plain ⟨39⟩).handle =
        some .record := (kind?_setBase _ _).trans (kind?_of_get? get?_basedTypes)
    have hfields : (basedTypes.setBase ⟨39⟩ none).allFields (TypeReference.plain ⟨39⟩).handle = [] :=
      hnone
    refine everywhere_of_childValues_eq_nil (fun _ _ _ name type _ hretyped => ?_) ?_
    · obtain ⟨field, hfield, -, -⟩ := mem_slots_iff.mp hretyped.1
      exact absurd (hfields ▸ hfield) List.not_mem_nil
    · rw [childValues, parts_of_record hkind, hfields]
      rfl

end Database
end LiveSchema
