import LiveSchema.Proofs.Schema.LegalNames
import LiveSchema.Proofs.StoredValues
import LiveSchema.Proofs.Value.Leaves

/-!
# The least free names

A new type, a new field and a new enumerator get the name with the least positive number that is free.
The search for it has no bound, and it goes by a check that could also refuse a name for other reasons
than that it is taken.  It never does: on every candidate the check decides whether the name is free, so
the search comes to an end, and so does what is done next.
-/

namespace LiveSchema

/-- No enumerator has the name. -/
def Enumeration.IsFreeName (enumeration : Enumeration) (name : String) : Prop :=
  ∀ enumerator ∈ enumeration.enumerators, enumerator.name ≠ name

namespace Registry

variable {registry : Registry} {record handle : TypeHandle} {definition : TypeDefinition}
  {word name : String}

/-! ## Free names -/

/-- No type has the name. -/
def IsFreeTypeName (registry : Registry) (name : String) : Prop :=
  ∀ handle definition, registry.get? handle = some definition → definition.name ≠ name

/-- No field has the name that is declared by the record, by an ancestor or by a descendant. -/
def IsFreeFieldName (registry : Registry) (record : TypeHandle) (name : String) : Prop :=
  ∀ owner, registry.Extends record owner ∨ registry.Extends owner record →
    ∀ field ∈ registry.ownFields owner, field.name ≠ name

theorem WellFormed.checkFieldName_iff (hwf : registry.WellFormed) (hrecord : registry.IsRecord record)
    (hname : Legality.IsIdentifier name) :
    Legality.checkFieldName registry record none name = .ok () ↔
      registry.IsFreeFieldName record name := by
  constructor
  · intro hcheck owner hrelated field hfield hsame
    -- the field would be effective in a type of the family
    have hnone : ∀ handle, registry.Extends handle record → ¬ registry.Extends handle owner :=
      fun handle hextends howner => hwf.not_mem_of_checkFieldName hcheck hextends
        (List.mem_map.mpr ⟨field, (mem_allFields_iff hwf.inheritance).mpr ⟨owner, howner, hfield⟩,
          hsame⟩)
    rcases hrelated with habove | hbelow
    · exact hnone record .refl habove
    · exact hnone owner hbelow .refl
  · intro hfree
    refine Legality.checkFieldName_eq_ok.mpr ⟨hrecord, hname,
      List.find?_eq_none.mpr fun owned howned hsame => ?_,
      List.find?_eq_none.mpr fun descendant hdescendant hsame => ?_⟩
    · obtain ⟨habove, hfield⟩ := (mem_ownedFields_iff hwf.inheritance).mp howned
      exact hfree owned.owner (.inl habove) owned.field hfield (by simpa using hsame)
    · obtain ⟨field, hfield, hown⟩ := List.any_eq_true.mp hsame
      have hbelow := (mem_family_iff record descendant).mp (List.mem_cons_of_mem _ hdescendant)
      exact hfree descendant (.inr hbelow) field hfield (by simpa using hown)

theorem checkEnumeratorName_iff {enumeration : Enumeration}
    (hfound : registry.get? handle = some definition)
    (hbody : definition.body = .enumeration enumeration) (hname : Legality.IsIdentifier name) :
    Legality.checkEnumeratorName registry handle none name = .ok () ↔
      enumeration.IsFreeName name := by
  constructor
  · intro hcheck enumerator hmem
    obtain ⟨-, hfree⟩ := checkEnumeratorName_of_body hfound hbody hcheck
    obtain ⟨position, hposition⟩ := List.getElem?_of_mem hmem
    exact Legality.enumeratorTaken_eq_false.mp hfree position enumerator hposition (by simp)
  · intro hfree
    refine Legality.checkEnumeratorName_eq_ok.mpr ⟨definition, enumeration, hfound, hbody, hname,
      Legality.enumeratorTaken_eq_false.mpr fun position enumerator hposition _ => ?_⟩
    exact hfree enumerator (List.mem_of_getElem? hposition)

/-! ## The search -/

/-- The search comes to the name and to no other one, and the name has the least positive number that
makes it free. -/
structure IsLeastFree (taken : String → Bool) (free : String → Prop) (word name : String) : Prop where
  found : ∀ other, Finds taken word 1 other ↔ other = name
  least : ∃ number, IsLeast {n | 0 < n ∧ free (word ++ Nat.repr n)} number ∧
    name = word ++ Nat.repr number

theorem Finds.isLeastFree {taken : String → Bool} {free : String → Prop}
    (h : Finds taken word 1 name)
    (hfree : ∀ n, taken (word ++ Nat.repr n) = false ↔ free (word ++ Nat.repr n)) :
    IsLeastFree taken free word name where
  found other := ⟨fun hother => hother.unique h, fun hsame => hsame ▸ h⟩
  least := by
    obtain ⟨number, hnumber, hname⟩ := h.exists_isLeast
    simp only [hfree] at hnumber
    exact ⟨number, hnumber, hname⟩

/-- A search that goes by a check finds the least free name if the check refuses an identifier for one
reason only, that it is not free. -/
theorem Finds.isLeastFree_of_check {check : String → Except Error Unit} {free : String → Prop}
    (h : Finds (fun name => (check name).toBool = false) word 1 name) (hword : Legality.IsStem word)
    (hcheck : ∀ name, Legality.IsIdentifier name → (check name = .ok () ↔ free name)) :
    IsLeastFree (fun name => (check name).toBool = false) free word name := by
  refine h.isLeastFree fun n => ?_
  rw [← hcheck _ (Legality.isIdentifier_numbered hword n)]
  cases check (word ++ Nat.repr n) <;> simp [Except.toBool]

theorem isLeastFree_freshTypeName (registry : Registry) (word : String) :
    IsLeastFree (fun name => (registry.resolve? name).isSome) registry.IsFreeTypeName word
      (registry.freshTypeName word) := by
  refine (registry.finds_freshTypeName word).isLeastFree fun n => ?_
  rw [Option.isSome_eq_false_iff, Option.isNone_iff_eq_none]
  exact resolve?_eq_none

theorem WellFormed.isLeastFree_freshFieldName (hwf : registry.WellFormed)
    (hrecord : registry.IsRecord record) :
    IsLeastFree (fun name => (Legality.checkFieldName registry record none name).toBool = false)
      (registry.IsFreeFieldName record) "field" (Content.freshFieldName registry record) :=
  (finds_freshFieldName hrecord).isLeastFree_of_check isStem_field fun _ hname =>
    hwf.checkFieldName_iff hrecord hname

theorem isLeastFree_freshEnumeratorName {enumeration : Enumeration}
    (hfound : registry.get? handle = some definition)
    (hbody : definition.body = .enumeration enumeration) :
    IsLeastFree (fun name => (Legality.checkEnumeratorName registry handle none name).toBool = false)
      enumeration.IsFreeName "Value" (Content.freshEnumeratorName registry handle enumeration) :=
  (finds_freshEnumeratorName hfound hbody).isLeastFree_of_check isStem_value fun _ hname =>
    checkEnumeratorName_iff hfound hbody hname

end Registry

/-! ## What is added -/

/-- Fitting what is stored to the records of a family has an end: the walk without a bound ends at every
root, and what it makes of the root is stored then. -/
def Stores.FitsInto (stores after : Stores) (registry : Registry) (record : TypeHandle) : Prop :=
  let fit := registry.reviseFamily record registry.conformed
  ∀ store name root, stores.root? store name = some root → ∀ value,
    registry.Walks fit root.type (fit root.type root.value) value ↔
      after.root? store name = some ⟨root.type, value⟩

theorem Registry.WellFormed.fitsInto_conformRecords {registry : Registry} {record : TypeHandle}
    (hwf : registry.WellFormed) (hrecord : registry.IsRecord record) (stores : Stores) :
    stores.FitsInto (stores.conformRecords registry record).2 registry record := by
  intro store name root hroot value
  have hsubsides := hwf.subsides_conformed fun handle hextends =>
    Registry.kind?_eq_record_iff.mpr (hwf.isRecord_of_extends hrecord hextends)
  have hends := hsubsides.walks root.type
    (registry.reviseFamily record registry.conformed root.type root.value)
  rw [Stores.conformRecords_snd, Stores.root?_revised, hroot, Option.map_some, Option.some.injEq]
  constructor
  · intro hwalks
    exact congrArg (Root.mk root.type) (Registry.Walks.unique hwf.names hends hwalks)
  · intro hsame
    obtain rfl : _ = value := congrArg Root.value hsame
    exact hends

namespace Content

variable {content : Content} {record handle : TypeHandle} {definition : TypeDefinition}

/-- A record gets its field, and what is stored is fitted to it: that ends, and so does the building of
the defaults that it needs. -/
theorem exists_addField (hwf : content.registry.WellFormed)
    (hrecord : content.registry.IsRecord record) :
    ∃ change, content.addField record = .ok change ∧
      change.answer = .name (freshFieldName content.registry record) ∧
      change.content.registry = content.registry.modifyFields record
        (withNewField (freshFieldName content.registry record)) ∧
      content.stores.FitsInto change.content.stores change.content.registry record ∧
      ∀ reference, change.content.registry.Ends reference := by
  have hadded : ∃ change, content.addField record = .ok change := by
    obtain ⟨definition, hdefinition⟩ := hrecord
    simp only [addField, bind_eq_ok, Legality.checkRecord_eq_ok]
    exact ⟨_, definition, hdefinition, rfl⟩
  obtain ⟨change, hchange⟩ := hadded
  obtain ⟨-, registry, hregistry, hcontent⟩ := addField_ok hchange
  have hafter : registry.WellFormed := by
    have hcarried : Mutation.carryOut content (.addField record) = .ok change := hchange
    have hchanged := Mutation.wellFormed_carryOut hwf hcarried
    rwa [hcontent] at hchanged
  have hrecordAfter : registry.IsRecord record :=
    hregistry ▸ Registry.isRecord_modifyFields _ hrecord
  refine ⟨change, hchange, answer_addField hchange, ?_⟩
  rw [hcontent]
  exact ⟨hregistry, hafter.fitsInto_conformRecords hrecordAfter content.stores, hafter.ends⟩

theorem exists_addEnumerator {enumeration : Enumeration}
    (hfound : content.registry.get? handle = some definition)
    (hbody : definition.body = .enumeration enumeration) :
    ∃ change, content.addEnumerator handle = .ok change ∧
      change.answer = .name (freshEnumeratorName content.registry handle enumeration) ∧
      change.content = content.withRegistry (content.registry.modifyEnumerators handle
        (withNewEnumerator (freshEnumeratorName content.registry handle enumeration))) := by
  have hcheck := Legality.checkEnumeration_eq_ok.mpr ⟨hfound, hbody⟩
  unfold addEnumerator
  rw [hcheck]
  exact ⟨_, rfl, rfl, rfl⟩

end Content

/-- The mutations that declare a type, with the word of its name and what they declare. -/
inductive Mutation.Declares : Mutation → String → (String → TypeDefinition) → Prop
  | struct : Declares .addStruct "Struct" (.newRecord .struct)
  | class : Declares .addClass "Class" (.newRecord .class)
  | enumeration : Declares .addEnum "Enum" .newEnumeration

theorem Mutation.Declares.carryOut_eq {mutation : Mutation} {word : String}
    {make : String → TypeDefinition} (h : mutation.Declares word make) (content : Content) :
    mutation.carryOut content = content.addType word make := by
  cases h <;> rfl

namespace Database

variable {digest : String → String} {database : Database}

/-- In every database that can be reached, declaring a type, adding a field to a record and adding an
enumerator to an enumeration are done, whatever is in use: the search for a name ends, and what is added
gets the name with the least positive number that is free, among all types, among the fields of the
record, of its ancestors and of its descendants, or among the enumerators.  With a new field, fitting the
stored values to it ends as well, and so does the building of any default. -/
theorem least_free_names_of_reachable (h : Reachable digest database) (time : Timestamp)
    (files : Directory) :
    let content := database.content
    let registry := content.registry
    let outcome := fun mutation => (database.apply digest time files mutation).outcome
    let after := fun mutation => (database.apply digest time files mutation).database.content
    (∀ mutation word make, Mutation.Declares mutation word make → ∃ name,
        Registry.IsLeastFree (fun name => (registry.resolve? name).isSome) registry.IsFreeTypeName
          word name ∧
        outcome mutation = .ok (.type registry.nextHandle) ∧
        after mutation = content.withRegistry (registry.declare (make name))) ∧
      (∀ record, registry.IsRecord record → ∃ name,
        Registry.IsLeastFree
          (fun name => (Legality.checkFieldName registry record none name).toBool = false)
          (registry.IsFreeFieldName record) "field" name ∧
        outcome (.addField record) = .ok (.name name) ∧
        (after (.addField record)).registry =
          registry.modifyFields record (Content.withNewField name) ∧
        content.stores.FitsInto (after (.addField record)).stores
          (after (.addField record)).registry record ∧
        ∀ reference, (after (.addField record)).registry.Ends reference) ∧
      ∀ handle definition enumeration, registry.get? handle = some definition →
        definition.body = .enumeration enumeration → ∃ name,
          Registry.IsLeastFree
            (fun name => (Legality.checkEnumeratorName registry handle none name).toBool = false)
            enumeration.IsFreeName "Value" name ∧
          outcome (.addEnumerator handle) = .ok (.name name) ∧
          after (.addEnumerator handle) = content.withRegistry
            (registry.modifyEnumerators handle (Content.withNewEnumerator name)) := by
  intro content registry outcome after
  have hwf := h.wellFormed
  -- a change that can be carried out is what is done
  have hdone : ∀ mutation {change}, mutation.carryOut content = .ok change →
      outcome mutation = .ok change.answer ∧ after mutation = change.content := fun _ _ hchange =>
    ⟨outcome_of_carryOut h.project_eq_none time files hchange,
      apply_content_of_carryOut time files hchange⟩
  refine ⟨fun mutation word make hdeclares => ?_, fun record hrecord => ?_,
    fun handle definition enumeration hfound hbody => ?_⟩
  · obtain ⟨change, hchange, hanswer, hcontent⟩ := content.exists_addType word make
    rw [← hdeclares.carryOut_eq] at hchange
    obtain ⟨houtcome, hafter⟩ := hdone mutation hchange
    exact ⟨_, registry.isLeastFree_freshTypeName word, hanswer ▸ houtcome, hafter.trans hcontent⟩
  · obtain ⟨change, hchange, hanswer, hregistry, hfits, hends⟩ := Content.exists_addField hwf hrecord
    obtain ⟨houtcome, hafter⟩ := hdone (.addField record) hchange
    rw [hafter]
    exact ⟨_, hwf.isLeastFree_freshFieldName hrecord, hanswer ▸ houtcome, hregistry, hfits, hends⟩
  · obtain ⟨change, hchange, hanswer, hcontent⟩ := Content.exists_addEnumerator hfound hbody
    obtain ⟨houtcome, hafter⟩ := hdone (.addEnumerator handle) hchange
    exact ⟨_, Registry.isLeastFree_freshEnumeratorName hfound hbody, hanswer ▸ houtcome,
      hafter.trans hcontent⟩

/-! ## A field below -/

/-- Two structs, of which the second derives from the first and has a field. -/
def fieldBelow : Database :=
  (derivingStructs.apply id ⟨3, 0⟩ NameMap.empty (.addField ⟨38⟩)).database

theorem reachable_fieldBelow : Reachable id fieldBelow := by
  rw [fieldBelow]
  exact reachable_derivingStructs.step ⟨3, 0⟩ NameMap.empty (.addField ⟨38⟩)

theorem registry_fieldBelow : fieldBelow.content.registry =
    derivingTypes.modifyFields ⟨38⟩ (Content.withNewField "field1") := by
  have hname : Content.freshFieldName derivingTypes ⟨38⟩ = "field1" :=
    Registry.freshFieldName_of_no_fields ⟨_, rfl, rfl⟩ rfl (by decide)
  rw [fieldBelow]
  exact (hasOnlyTypes_derivingStructs.addField ⟨3, 0⟩ NameMap.empty rfl hname).registry_eq

/-- The field takes the first name, for the struct that has it and for the one above.  So the next field
of either gets the second name, and the next struct is the third one. -/
theorem least_free_names_of_fieldBelow :
    let applied := fun mutation => fieldBelow.apply id ⟨4, 0⟩ NameMap.empty mutation
    (applied (.addField ⟨37⟩)).outcome = .ok (.name "field2") ∧
      (applied (.addField ⟨38⟩)).outcome = .ok (.name "field2") ∧
      (applied .addStruct).outcome = .ok (.type ⟨39⟩) ∧
      (applied .addStruct).database.content.registry.nameOf ⟨39⟩ = "Struct3" := by
  intro applied
  obtain ⟨htypes, hfields, -⟩ := least_free_names_of_reachable reachable_fieldBelow ⟨4, 0⟩
    NameMap.empty
  have hchecks : ∀ record ∈ [TypeHandle.mk 37, TypeHandle.mk 38],
      (Legality.checkFieldName fieldBelow.content.registry record none "field1").toBool = false ∧
        (Legality.checkFieldName fieldBelow.content.registry record none "field2").toBool = true := by
    rw [registry_fieldBelow]
    decide
  have hfield : ∀ record ∈ [TypeHandle.mk 37, TypeHandle.mk 38],
      fieldBelow.content.registry.IsRecord record →
        (applied (.addField record)).outcome = .ok (.name "field2") := by
    intro record hmem hrecord
    obtain ⟨hfirst, hsecond⟩ := hchecks record hmem
    obtain ⟨name, hleast, hanswer, -⟩ := hfields record hrecord
    obtain rfl := (hleast.found "field2").mp
      (.next (decide_eq_true hfirst) (.free (decide_eq_false (ne_false_of_eq_true hsecond))))
    exact hanswer
  rw [registry_fieldBelow] at hfield
  have hresolved : (fieldBelow.content.registry.resolve? "Struct1").isSome = true ∧
      (fieldBelow.content.registry.resolve? "Struct2").isSome = true ∧
      (fieldBelow.content.registry.resolve? "Struct3").isSome = false := by
    rw [registry_fieldBelow]
    decide +kernel
  obtain ⟨hfirst, hsecond, hthird⟩ := hresolved
  obtain ⟨name, hleast, hanswer, hcontent⟩ := htypes _ _ _ .struct
  obtain rfl := (hleast.found "Struct3").mp (.next hfirst (.next hsecond (.free hthird)))
  have hnext : fieldBelow.content.registry.nextHandle = ⟨39⟩ := by
    rw [registry_fieldBelow]
    rfl
  have hdeclared : (applied .addStruct).database.content.registry =
      fieldBelow.content.registry.declare (.newRecord .struct "Struct3") :=
    congrArg Content.registry hcontent
  refine ⟨hfield ⟨37⟩ (by simp) ⟨_, rfl, rfl⟩, hfield ⟨38⟩ (by simp) ⟨_, rfl, rfl⟩,
    hnext ▸ hanswer, ?_⟩
  rw [hdeclared, ← hnext]
  exact Registry.nameOf_of_get? ((Registry.get?_declare _ _ _).trans (if_pos rfl))

end Database
end LiveSchema
