import LiveSchema.Proofs.Mutation.Reshaping
import LiveSchema.Proofs.StoredValues

/-!
# Stored values that mutations keep

Declaring and renaming types, setting flags, exchanging fields, and adding and renaming enumerators
leave all stored values alone.  Adding a field and renaming one give the objects of a family another
key, at any depth, and leave everything else as it is.
-/

namespace LiveSchema

/-- The mutations that leave all stored values alone. -/
def Mutation.keepsValues : Mutation → Bool
  | addStruct => true
  | addClass => true
  | addEnum => true
  | setTypeName _ _ => true
  | setRecordTable _ _ => true
  | setFieldFlags _ _ _ => true
  | swapFields _ _ _ => true
  | addEnumerator _ => true
  | setEnumeratorName _ _ _ => true
  | _ => false

/-- What such a mutation makes of the stores. -/
theorem Mutation.same_stores_carryOut {content : Content} {change : Change} {mutation : Mutation}
    (hwf : content.registry.WellFormed) (hconforms : content.Conforms)
    (hkeeps : mutation.keepsValues = true) (h : mutation.carryOut content = .ok change) :
    Stores.Same change.content.stores content.stores := by
  have hsame : ∀ {registry : Registry}, change.content = content.withRegistry registry →
      Stores.Same change.content.stores content.stores := by
    intro registry hcontent
    rw [hcontent]
    exact .refl False content.stores
  cases mutation with
  | addStruct => exact hsame (Content.addType_ok h).2
  | addClass => exact hsame (Content.addType_ok h).2
  | addEnum => exact hsame (Content.addType_ok h).2
  | setTypeName type name =>
      obtain ⟨-, -, -, hcontent⟩ := Content.setTypeName_ok h
      exact hsame hcontent
  | setRecordTable record enabled =>
      obtain ⟨-, flags, -, hcontent⟩ := Content.setRecordTable_ok h
      exact hsame hcontent
  | setFieldFlags record field flags =>
      obtain ⟨-, index, own, -, -, hcontent⟩ := Content.setFieldFlags_ok h
      exact hsame hcontent
  | swapFields record first second => exact Content.swapFields_stores hwf hconforms h
  | addEnumerator enumeration =>
      obtain ⟨definition, held, -, -, hcontent⟩ := Content.addEnumerator_ok h
      exact hsame hcontent
  | setEnumeratorName enumeration index name =>
      obtain ⟨definition, held, -, -, -, hcontent⟩ := Content.setEnumeratorName_ok h
      exact hsame hcontent
  | _ => exact absurd hkeeps (by simp [keepsValues])

namespace Database

open Registry

variable {digest : String → String} {database : Database}

/-- In every database that can be reached and whose roots conform: mutations that declare, rename or
exchange things leave all stored values alone, but for the order of entries; adding a field puts null
under its name, which was free, into every object of the record and of what extends it, and leaves
everything else alone; and renaming a field moves what every such object holds for it to the new key,
and leaves everything else alone. -/
theorem kept_values_of_reachable (hreachable : Reachable digest database)
    (hconforms : database.content.Conforms) (time : Timestamp) (files : Directory) :
    let outcome := fun mutation => (database.apply digest time files mutation).outcome
    let after := fun mutation => (database.apply digest time files mutation).database.content.stores
    (∀ mutation answer, mutation.keepsValues = true → outcome mutation = .ok answer →
        Stores.Same (after mutation) database.content.stores) ∧
      (∀ record answer, outcome (.addField record) = .ok answer →
        ∃ name, answer = .name name ∧
          (∀ object ∈ database.content.objectsOf record,
            PathSegment.child? object.value (.field name) = none) ∧
          Stores.Same (after (.addField record))
            (database.content.reshapedStores record id [(name, .null)])) ∧
      ∀ record field name answer, outcome (.setFieldName record field name) = .ok answer →
        (∀ object ∈ database.content.objectsOf record,
            (∃ held, PathSegment.child? object.value (.field field) = some held) ∧
              (name = field ∨ PathSegment.child? object.value (.field name) = none)) ∧
          after (.setFieldName record field name) =
            database.content.reshapedStores record (Entries.renamed field name) [] := by
  intro outcome after
  have hwf := hreachable.wellFormed
  -- what was answered is the answer of a change, and its stores are there then
  have hdone : ∀ {mutation answer}, outcome mutation = .ok answer →
      ∃ change : Change, mutation.carryOut database.content = .ok change ∧
        answer = change.answer ∧ after mutation = change.content.stores := by
    intro mutation answer h
    obtain ⟨change, -, hchange, hcontent, -⟩ := carriedOut_and_recorded h
    have hanswer : outcome mutation = .ok change.answer :=
      outcome_of_carryOut hreachable.project_eq_none time files hchange
    exact ⟨change, hchange, Except.ok.inj (h.symm.trans hanswer), congrArg Content.stores hcontent⟩
  refine ⟨fun mutation answer hkeeps h => ?_, fun record answer h => ?_,
    fun record field name answer h => ?_⟩
  · obtain ⟨change, hchange, -, hstores⟩ := hdone h
    rw [hstores]
    exact Mutation.same_stores_carryOut hwf hconforms hkeeps hchange
  · obtain ⟨change, hchange, rfl, hstores⟩ := hdone h
    rw [hstores]
    exact Content.addField_stores hwf hconforms hchange
  · obtain ⟨change, hchange, -, hstores⟩ := hdone h
    rw [hstores]
    exact Content.setFieldName_stores hwf hconforms hchange

/-! ## A struct with a field -/

/-- A single struct with one field. -/
def structWithField : Database :=
  ((inMemory.apply id ⟨0, 0⟩ NameMap.empty .addStruct).database.apply id ⟨1, 0⟩ NameMap.empty
    (.addField ⟨37⟩)).database

/-- A root that holds the default of the struct. -/
def storedObject : Database :=
  (structWithField.apply id ⟨2, 0⟩ NameMap.empty (.addRoot "main" "r" (.plain ⟨37⟩))).database

theorem reachable_structWithField : Reachable id structWithField :=
  (Reachable.fresh.step ⟨0, 0⟩ NameMap.empty .addStruct).step ⟨1, 0⟩ NameMap.empty
    (.addField ⟨37⟩)

theorem reachable_storedObject : Reachable id storedObject := by
  rw [storedObject]
  exact reachable_structWithField.step ⟨2, 0⟩ NameMap.empty (.addRoot "main" "r" (.plain ⟨37⟩))

theorem hasOnlyTypes_structWithField : structWithField.HasOnlyTypes voidFieldTypes :=
  (hasOnlyTypes_of_one_struct ⟨0, 0⟩).addField ⟨1, 0⟩ NameMap.empty rfl freshFieldName_ofStructs

theorem content_storedObject : storedObject.content =
    ⟨voidFieldTypes, .single "r" ⟨.plain ⟨37⟩, .object [("field1", .null)]⟩⟩ := by
  have hstruct : voidFieldTypes.get? ⟨37⟩ = some {
      name := "Struct1"
      body := .record ⟨.struct, [⟨"field1", .plain void, .empty, ""⟩], .empty⟩ } := rfl
  have hvoid : voidFieldTypes.get? void = some (.ofBuiltin .void) := rfl
  have hfields : voidFieldTypes.allFields ⟨37⟩ = [⟨"field1", .plain void, .empty, ""⟩] := rfl
  have hname : Legality.checkIdentifier "r" = .ok () := rfl
  have hlegal : Legality.checkReference voidFieldTypes (.plain ⟨37⟩) = .ok () := rfl
  rw [storedObject]
  exact hasOnlyTypes_structWithField.addRoot_of_single_field ⟨2, 0⟩ NameMap.empty rfl hname hlegal
    hstruct rfl hfields hvoid rfl (by decide) (by decide) rfl

theorem root?_storedObject : storedObject.content.stores.root? "main" "r" =
    some ⟨.plain ⟨37⟩, .object [("field1", .null)]⟩ := by
  rw [content_storedObject]
  rfl

/-- The root is an object of the struct, and gets the other keys. -/
theorem root?_reshapedStores_storedObject (ρ : String → String) (added : Entries) :
    (storedObject.content.reshapedStores ⟨37⟩ ρ added).root? "main" "r" =
      some ⟨.plain ⟨37⟩, .object (Entries.reshape ρ added [("field1", .null)])⟩ := by
  let f := storedObject.content.registry.reshapeFamily ⟨37⟩ ρ added
  have hparts : storedObject.content.registry.parts (.plain ⟨37⟩) (.object [("field1", .null)]) =
      .fields [⟨"field1", .plain void, .empty, ""⟩] [("field1", .null)] := by
    have hkind : storedObject.content.registry.kind? ⟨37⟩ = some .record := by
      rw [content_storedObject]
      rfl
    have hfields : storedObject.content.registry.allFields ⟨37⟩ =
        [⟨"field1", .plain void, .empty, ""⟩] := by
      rw [content_storedObject]
      rfl
    exact (parts_of_record hkind).trans (congrArg (Parts.fields · _) hfields)
  have hnull : storedObject.content.registry.childValues (.plain void) .null = [] := by
    rw [content_storedObject]
    rfl
  have hfield : storedObject.content.registry.rewrite f (.plain void) .null = .null := by
    rw [rewrite_eq_changeEach, hnull, Child.changeEach]
    unfold f reshapeFamily whereConcerned
    split <;> rfl
  have hinside : Parts.mapFields (storedObject.content.registry.rewrite f) [("field1", .null)]
      [⟨"field1", .plain void, .empty, ""⟩] = [("field1", .null)] := by
    simp [Parts.mapFields, Entries.value?, hfield, Entries.assign]
  have hobject : f (.plain ⟨37⟩) (.object [("field1", .null)]) =
      .object (Entries.reshape ρ added [("field1", .null)]) :=
    reshapeFamily_of_extends .refl ρ added _
  have hrewritten : storedObject.content.registry.rewrite f (.plain ⟨37⟩)
      (.object [("field1", .null)]) = .object (Entries.reshape ρ added [("field1", .null)]) := by
    rw [rewrite_eq (reachable_storedObject.wellFormed.names _), hparts, Parts.mapChildren, hinside,
      hobject]
  rw [Content.reshapedStores, Stores.rewritten, Stores.root?_mapRoots, root?_storedObject]
  exact congrArg (fun value => some (Root.mk (.plain ⟨37⟩) value)) hrewritten

/-- The root holds the default of the struct.  Declaring an enumeration keeps it, a second field appears
in it as null, and the first one can get another name. -/
theorem kept_values_of_storedObject :
    let after := fun mutation => (storedObject.apply id ⟨3, 0⟩ NameMap.empty mutation).database
    storedObject.content.stores.root? "main" "r" =
        some ⟨.plain ⟨37⟩, .object [("field1", .null)]⟩ ∧
      Stores.Same (after .addEnum).content.stores storedObject.content.stores ∧
      (∃ root, (after (.addField ⟨37⟩)).content.stores.root? "main" "r" = some root ∧
        Json.Same root.value (.object [("field1", .null), ("field2", .null)])) ∧
      (after (.setFieldName ⟨37⟩ "field1" "renamed")).content.stores.root? "main" "r" =
        some ⟨.plain ⟨37⟩, .object [("renamed", .null)]⟩ := by
  dsimp only
  have hconforms : storedObject.content.Conforms := by
    rw [storedObject]
    exact hasOnlyTypes_structWithField.conforms_apply reachable_structWithField ⟨2, 0⟩
      NameMap.empty id
  have hroot := root?_storedObject
  obtain ⟨hkept, hadded, hrenamed⟩ :=
    kept_values_of_reachable reachable_storedObject hconforms ⟨3, 0⟩ NameMap.empty
  have hdone : ∀ {mutation change}, Mutation.carryOut storedObject.content mutation = .ok change →
      (storedObject.apply id ⟨3, 0⟩ NameMap.empty mutation).outcome = .ok change.answer :=
    outcome_of_carryOut reachable_storedObject.project_eq_none ⟨3, 0⟩ NameMap.empty
  refine ⟨hroot, ?_, ?_, ?_⟩
  · obtain ⟨change, hchange⟩ : ∃ change,
        Mutation.carryOut storedObject.content .addEnum = .ok change := by
      have hfree : ¬ (voidFieldTypes.resolve? (voidFieldTypes.freshTypeName "Enum")).isSome =
          true := by
        decide
      rw [content_storedObject, Mutation.carryOut, Content.addType]
      exact ⟨_, if_neg hfree⟩
    exact hkept .addEnum _ rfl (hdone hchange)
  · obtain ⟨change, hchange, hanswer⟩ : ∃ change,
        Mutation.carryOut storedObject.content (.addField ⟨37⟩) = .ok change ∧
          change.answer = .name "field2" := by
      rw [content_storedObject]
      refine ⟨_, rfl, ?_⟩
      rfl
    obtain ⟨name, hname, -, hstores⟩ := hadded ⟨37⟩ (.name "field2") (hanswer ▸ hdone hchange)
    cases hname
    obtain ⟨root, hfound, hlike⟩ := hstores.exists_root? (root?_reshapedStores_storedObject _ _)
    exact ⟨root, hfound, hlike.value⟩
  · obtain ⟨change, hchange⟩ : ∃ change, Mutation.carryOut storedObject.content
        (.setFieldName ⟨37⟩ "field1" "renamed") = .ok change := by
      rw [content_storedObject]
      exact ⟨_, rfl⟩
    obtain ⟨-, hstores⟩ := hrenamed ⟨37⟩ "field1" "renamed" change.answer (hdone hchange)
    exact (congrArg (Stores.root? · "main" "r") hstores).trans
      (root?_reshapedStores_storedObject _ _)

end Database
end LiveSchema
