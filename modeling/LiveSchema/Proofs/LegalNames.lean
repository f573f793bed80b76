import LiveSchema.Proofs.Mutation.Conformance
import LiveSchema.Proofs.Mutation.RootTypes
import LiveSchema.Proofs.Reachable
import LiveSchema.Proofs.Schema.Compact
import LiveSchema.Proofs.Schema.LegalNames
import LiveSchema.Proofs.Schema.Rebase

/-!
# Names in every reachable database

Names clash upwards, sideways and downwards in a hierarchy: a field may not be named like one that its
record inherits, nor like one of a record that derives from it.  In every database that mutations lead
to there is no such clash, no two enumerators of an enumeration share a name, and every name that a
user can choose is legal, whether a user chose it or it was made up.
-/

namespace LiveSchema

/-- What a change of an element brings was there or is new. -/
theorem mem_map_modify {α : Type u} {β : Type v} {g : α → β} {f : α → α} {list : List α}
    {index : Nat} {b : β} (h : b ∈ (list.modify index f).map g) :
    b ∈ list.map g ∨ ∃ a, b = g (f a) := by
  obtain ⟨changed, hchanged, rfl⟩ := List.mem_map.mp h
  rcases mem_modify hchanged with hold | ⟨old, -, rfl⟩
  · exact Or.inl (List.mem_map_of_mem hold)
  · exact Or.inr ⟨old, rfl⟩

/-- An enumerator renamed to a name that no other one has leaves the names distinct. -/
theorem Enumeration.nodup_renamed {enumeration : Enumeration} {index : Nat} {name : String}
    (hdistinct : (enumeration.enumerators.map Enumerator.name).Nodup)
    (hfree : Legality.enumeratorTaken enumeration (some index) name = false) :
    ((enumeration.enumerators.modify index fun own => { own with name := name }).map
      Enumerator.name).Nodup := by
  rw [Legality.enumeratorTaken_eq_false] at hfree
  rw [List.nodup_iff_pairwise_ne, List.pairwise_iff_getElem] at hdistinct ⊢
  simp only [List.length_map, List.length_modify, List.getElem_map, List.getElem_modify] at *
  intro first second hfirst hsecond hlt
  have hfree' : ∀ position (hposition : position < enumeration.enumerators.length),
      position ≠ index → enumeration.enumerators[position].name ≠ name :=
    fun position hposition hne => hfree position _ (List.getElem?_eq_getElem hposition) (by simpa)
  by_cases hone : index = first
  · rw [if_pos hone, if_neg (by omega)]
    exact (hfree' second hsecond (by omega)).symm
  · rw [if_neg hone]
    by_cases htwo : index = second
    · rw [if_pos htwo]
      exact hfree' first hfirst (by omega)
    · rw [if_neg htwo]
      exact hdistinct first second hfirst hsecond hlt

namespace Registry

variable {registry : Registry} {record ancestor handle : TypeHandle} {definition : TypeDefinition}
  {enumeration : Enumeration}

/-- No own field of a record hides a field of an ancestor. -/
theorem WellFormed.name_ne_of_mem_ancestors (hwf : registry.WellFormed)
    (hancestor : ancestor ∈ registry.ancestors record) {own inherited : Field}
    (hown : own ∈ registry.ownFields record) (hinherited : inherited ∈ registry.ownFields ancestor) :
    own.name ≠ inherited.name := by
  have hnames := hwf.names record
  rw [allFieldNames, allFields_eq_flatMap, lineage, List.flatMap_append, List.flatMap_singleton,
    List.map_append, List.nodup_append] at hnames
  have habove : inherited.name ∈
      ((registry.ancestors record).reverse.flatMap registry.ownFields).map Field.name :=
    List.mem_map_of_mem (List.mem_flatMap.mpr ⟨ancestor, List.mem_reverse.mpr hancestor, hinherited⟩)
  exact fun hsame => hnames.2.2 _ habove _ (List.mem_map_of_mem hown) hsame.symm

theorem WellNamed.modifyFields_of_subset (hnamed : registry.WellNamed)
    {g : List Field → List Field} (hg : (g (registry.ownFields record)).map Field.name ⊆
      (registry.ownFields record).map Field.name) : (registry.modifyFields record g).WellNamed :=
  hnamed.modifyFields fun _ hname => Or.inl (hg hname)

theorem WellNamed.modifyFields_of_names (hnamed : registry.WellNamed)
    {g : List Field → List Field} (hg : (g (registry.ownFields record)).map Field.name =
      (registry.ownFields record).map Field.name) : (registry.modifyFields record g).WellNamed :=
  hnamed.modifyFields_of_subset (hg ▸ List.Subset.refl _)

/-! ## Changes of enumerations -/

theorem WellNamed.addEnumerator (hnamed : registry.WellNamed)
    (hfound : registry.get? handle = some definition)
    (hbody : definition.body = .enumeration enumeration) :
    (registry.modifyEnumerators handle (Content.withNewEnumerator
      (Content.freshEnumeratorName registry handle enumeration))).WellNamed := by
  have hcheck := checkEnumeratorName_freshEnumeratorName hfound hbody
  obtain ⟨hlegal, hfree⟩ := checkEnumeratorName_of_body hfound hbody hcheck
  refine hnamed.modifyEnumerators hfound hbody (fun name hname => ?_) ?_
  · rw [Content.withNewEnumerator, List.map_append, List.mem_append, List.map_singleton,
      List.mem_singleton] at hname
    refine hname.imp_right ?_
    rintro rfl
    exact hlegal
  · rw [Content.withNewEnumerator, List.map_append, List.map_singleton, ← List.concat_eq_append]
    refine (hnamed.distinct hfound hbody).concat fun hmem => ?_
    obtain ⟨enumerator, henumerator, hsame⟩ := List.mem_map.mp hmem
    obtain ⟨position, hposition⟩ := List.mem_iff_getElem?.mp henumerator
    exact Legality.enumeratorTaken_eq_false.mp hfree position enumerator hposition (by simp) hsame

theorem WellNamed.renameEnumerator (hnamed : registry.WellNamed) {index : Nat} {name : String}
    (hcheck : Legality.checkEnumeratorName registry handle (some index) name = .ok ()) :
    (registry.modifyEnumerators handle fun enumerators =>
      enumerators.modify index fun own => { own with name := name }).WellNamed := by
  obtain ⟨definition, enumeration, hfound, hbody, hlegal, hfree⟩ :=
    Legality.checkEnumeratorName_eq_ok.mp hcheck
  refine hnamed.modifyEnumerators hfound hbody
    (fun other hother => (mem_map_modify hother).imp_right ?_)
    (Enumeration.nodup_renamed (hnamed.distinct hfound hbody) hfree)
  rintro ⟨_, rfl⟩
  exact hlegal

/-! ## Every transition -/

theorem WellNamed.fieldsTransition (hnamed : registry.WellNamed) (hrecord : registry.IsRecord record)
    {g : List Field → List Field} (h : registry.FieldsTransition record g) :
    (registry.modifyFields record g).WellNamed := by
  cases h with
  | added =>
      obtain ⟨-, hlegal, -⟩ :=
        Legality.checkFieldName_eq_ok.mp (checkFieldName_freshFieldName hrecord)
      refine hnamed.modifyFields fun name hname => ?_
      rw [Content.withNewField, List.map_append, List.mem_append, List.map_singleton,
        List.mem_singleton] at hname
      refine hname.imp_right ?_
      rintro rfl
      exact hlegal
  | renamed _ hcheck =>
      obtain ⟨-, hlegal, -⟩ := Legality.checkFieldName_eq_ok.mp hcheck
      refine hnamed.modifyFields fun other hother => (mem_map_modify hother).imp_right ?_
      rintro ⟨_, rfl⟩
      exact hlegal
  | @retyped index _ _ _ _ _ | @flagged index _ _ _ _ =>
      refine hnamed.modifyFields_of_names (map_modify_of_eq ?_ _ index)
      exact fun _ => rfl
  | exchanged first second =>
      exact hnamed.modifyFields_of_subset ((exchange_perm _ first second).map Field.name).subset
  | erased index =>
      exact hnamed.modifyFields_of_subset ((List.eraseIdx_sublist _ index).map Field.name).subset

theorem WellNamed.enumeratorsTransition (hnamed : registry.WellNamed)
    (hfound : registry.get? handle = some definition)
    (hbody : definition.body = .enumeration enumeration) {g : List Enumerator → List Enumerator}
    (h : registry.EnumeratorsTransition handle enumeration g) :
    (registry.modifyEnumerators handle g).WellNamed := by
  cases h with
  | added => exact hnamed.addEnumerator hfound hbody
  | renamed hcheck => exact hnamed.renameEnumerator hcheck
  | renumbered hnames =>
      exact hnamed.modifyEnumerators hfound hbody (fun name hname => Or.inl (hnames.subset hname))
        (hnames.nodup (hnamed.distinct hfound hbody))

theorem WellNamed.transition (hnamed : registry.WellNamed) {change : NameChange} {after : Registry}
    (h : registry.Transition change after) : after.WellNamed := by
  cases h with
  | same => exact hnamed
  | declaredRecord kind hname _ =>
      exact hnamed.declare (TypeDefinition.wellNamed_newRecord kind hname)
  | declaredEnumeration hname _ =>
      exact hnamed.declare (TypeDefinition.wellNamed_newEnumeration hname)
  | @renamed type _ _ _ _ hname _ => exact hnamed.rename type hname
  | @removed type _ _ _ _ _ => exact hnamed.remove type
  | rebased => exact hnamed.setBase _
  | flagged => exact hnamed.modifyRecord_flags _
  | reshaped hrecord hfields => exact hnamed.fieldsTransition hrecord hfields
  | @moved source target index own hsource _ _ hindex _ =>
      have herased := hnamed.fieldsTransition hsource (.erased index)
      refine herased.modifyFields fun name hname => ?_
      rw [List.map_cons, List.mem_cons] at hname
      refine hname.symm.imp_right ?_
      rintro rfl
      exact hnamed.ownFields (List.mem_map_of_mem (List.mem_of_getElem? hindex))
  | @flattened record base definition _ hfound _ =>
      refine (hnamed.modifyFields fun name hname => ?_).setBase definition.base
      rw [List.map_append, List.mem_append] at hname
      exact hname.symm.imp_right ((hnamed base definition hfound).fields name)
  | enumerated hfound hbody henumerators =>
      exact hnamed.enumeratorsTransition hfound hbody henumerators

end Registry

/-- The names of types, stores and roots in a content are legal. -/
structure Content.WellNamed (content : Content) : Prop where
  types : content.registry.WellNamed
  stores : ∀ store, content.stores.contains store = true → Legality.IsIdentifier store
  roots : ∀ store name root, content.stores.root? store name = some root →
    Legality.IsIdentifier name

theorem Content.wellNamed_initial : Content.initial.WellNamed where
  types := Registry.wellNamed_initial
  stores store hstore := by
    rw [NameMap.contains, Content.initial, NameMap.get?_insert] at hstore
    split at hstore
    next hsame => exact hsame ▸ by decide
    next => exact absurd hstore (by simp)
  roots store name root hroot := absurd hroot (by simp [Content.root?_initial])

theorem Content.WellNamed.carryOut {content : Content} {mutation : Mutation} {change : Change}
    (h : content.WellNamed) (hchange : mutation.carryOut content = .ok change) :
    change.content.WellNamed where
  types := h.types.transition (Mutation.transition_carryOut hchange)
  stores store hstore :=
    ((Mutation.rootsFrom_carryOut hchange).stores store hstore).elim (h.stores store) id
  roots store name root hroot := by
    rcases (Mutation.rootsFrom_carryOut hchange).roots store name root hroot with
      ⟨old, hold, -⟩ | ⟨hlegal, -⟩
    · exact h.roots store name old hold
    · exact hlegal

namespace Database

variable {digest : String → String} {database : Database}

theorem Reachable.wellNamed (h : Reachable digest database) : database.content.WellNamed :=
  h.content_induction Content.wellNamed_initial
    fun _ _ _ hnamed hchange => hnamed.carryOut hchange

/-- In every database that can be reached: the effective fields of a record have distinct names, and no
own field hides one of an ancestor; the enumerators of an enumeration have distinct names; and the names
of all user types, fields, enumerators, stores and roots pass the check for identifiers. -/
theorem distinct_legal_names_of_reachable (h : Reachable digest database) :
    (∀ record, (database.content.registry.allFieldNames record).Nodup) ∧
      (∀ record, ∀ ancestor ∈ database.content.registry.ancestors record,
        ∀ own ∈ database.content.registry.ownFields record,
          ∀ inherited ∈ database.content.registry.ownFields ancestor,
            own.name ≠ inherited.name) ∧
      (∀ handle definition, database.content.registry.get? handle = some definition →
        (definition.enumerators.map Enumerator.name).Nodup) ∧
      (∀ type ∈ database.content.registry.userTypes,
        Legality.checkIdentifier (database.content.registry.nameOf type) = .ok ()) ∧
      (∀ record, ∀ field ∈ database.content.registry.ownFields record,
        Legality.checkIdentifier field.name = .ok ()) ∧
      (∀ handle definition, database.content.registry.get? handle = some definition →
        ∀ enumerator ∈ definition.enumerators,
          Legality.checkIdentifier enumerator.name = .ok ()) ∧
      (∀ store, database.content.stores.contains store = true →
        Legality.checkIdentifier store = .ok ()) ∧
      ∀ store name root, database.content.stores.root? store name = some root →
        Legality.checkIdentifier name = .ok () := by
  have hwf := h.wellFormed
  have hnamed := h.wellNamed
  simp only [Legality.checkIdentifier_eq_ok]
  refine ⟨hwf.names, fun record ancestor hancestor own hown inherited hinherited =>
      hwf.name_ne_of_mem_ancestors hancestor hown hinherited,
    fun handle definition hfound => (hnamed.types handle definition hfound).distinct,
    fun type htype => ?_,
    fun record field hfield => hnamed.types.ownFields (List.mem_map_of_mem hfield),
    fun handle definition hfound enumerator hmem =>
      (hnamed.types handle definition hfound).enumerators _ (List.mem_map_of_mem hmem),
    hnamed.stores, hnamed.roots⟩
  obtain ⟨definition, hfound, huser⟩ := Registry.mem_userTypes.mp htype
  rw [Registry.nameOf_of_get? hfound]
  exact (hnamed.types type definition hfound).own huser

/-- Two structs, and an enumeration with two enumerators.  The second struct derives from the first one,
and both have a field. -/
def derivedFields : Database :=
  ofMutations [.addStruct, .addStruct, .addEnum, .addEnumerator ⟨39⟩, .addEnumerator ⟨39⟩,
    .setRecordBaseType ⟨38⟩ (some (.plain ⟨37⟩)), .addField ⟨37⟩, .addField ⟨38⟩]

theorem reachable_derivedFields : Reachable id derivedFields :=
  reachable_ofMutations _

/-- The types with one enumerator, -/
def oneEnumerator : Registry :=
  ((ofStructs ["Struct1", "Struct2"]).declare (.newEnumeration "Enum1")).modifyEnumerators ⟨39⟩
    fun enumerators => enumerators ++ [⟨"Value1", none, ""⟩]

/-- with both, -/
def twoEnumerators : Registry :=
  oneEnumerator.modifyEnumerators ⟨39⟩ fun enumerators => enumerators ++ [⟨"Value2", none, ""⟩]

/-- with the field of the first struct, -/
def fieldAbove : Registry :=
  (twoEnumerators.setBase ⟨38⟩ (some (.plain ⟨37⟩))).modifyFields ⟨37⟩ fun fields =>
    fields ++ [⟨"field1", .plain Registry.void, .empty, ""⟩]

/-- and with both fields. -/
def derivedFieldTypes : Registry :=
  fieldAbove.modifyFields ⟨38⟩ fun fields =>
    fields ++ [⟨"field2", .plain Registry.void, .empty, ""⟩]

theorem hasOnlyTypes_twoEnumerators :
    (ofMutations [.addStruct, .addStruct, .addEnum, .addEnumerator ⟨39⟩,
      .addEnumerator ⟨39⟩]).HasOnlyTypes twoEnumerators := by
  have hname : (ofStructs ["Struct1", "Struct2"]).freshTypeName "Enum" = "Enum1" := rfl
  have henumeration : ((ofStructs ["Struct1", "Struct2"]).declare (.newEnumeration "Enum1")).get? ⟨39⟩ =
      some (.newEnumeration "Enum1") := rfl
  have hfirst : Content.freshEnumeratorName ((ofStructs ["Struct1", "Struct2"]).declare
      (.newEnumeration "Enum1")) ⟨39⟩ ⟨[]⟩ = "Value1" := rfl
  have hone : oneEnumerator.get? ⟨39⟩ = some {
      name := "Enum1", body := .enumeration ⟨[⟨"Value1", none, ""⟩]⟩ } := rfl
  have hsecond : Content.freshEnumeratorName oneEnumerator ⟨39⟩ ⟨[⟨"Value1", none, ""⟩]⟩ =
      "Value2" := by decide
  have hdeclared : (ofMutations [.addStruct, .addStruct, .addEnum]).HasOnlyTypes
      ((ofStructs ["Struct1", "Struct2"]).declare (.newEnumeration "Enum1")) :=
    (hasOnlyTypes_ofMutations_two_structs.addType ⟨0, 0⟩ NameMap.empty (fun _ => rfl) hname).concat
  have hadded := (hdeclared.addEnumerator ⟨0, 0⟩ NameMap.empty
    (Legality.checkEnumeration_eq_ok.mpr ⟨henumeration, rfl⟩) hfirst).concat
  exact (hadded.addEnumerator ⟨0, 0⟩ NameMap.empty
    (Legality.checkEnumeration_eq_ok.mpr ⟨hone, rfl⟩) hsecond).concat

theorem hasOnlyTypes_derivedFields : derivedFields.HasOnlyTypes derivedFieldTypes := by
  have hbase : Legality.checkBase twoEnumerators ⟨38⟩ (some (.plain ⟨37⟩)) = .ok () :=
    Registry.checkBase_of_flat rfl rfl rfl rfl (by decide)
  have hfirst : Content.freshFieldName (twoEnumerators.setBase ⟨38⟩ (some (.plain ⟨37⟩))) ⟨37⟩ =
      "field1" :=
    Registry.freshFieldName_of_no_fields ⟨_, rfl, rfl⟩ rfl (by decide)
  have hsecond : Content.freshFieldName fieldAbove ⟨38⟩ = "field2" := rfl
  have hderiving :=
    (hasOnlyTypes_twoEnumerators.setRecordBaseType ⟨0, 0⟩ NameMap.empty hbase).concat
  have habove := (hderiving.addField ⟨0, 0⟩ NameMap.empty rfl hfirst).concat
  exact (habove.addField ⟨0, 0⟩ NameMap.empty rfl hsecond).concat

/-- The names made up for the fields differ, those of the enumerators do, and all of them are legal. -/
theorem distinct_legal_names_of_derivedFields :
    let registry := derivedFields.content.registry
    registry.allFieldNames ⟨38⟩ = ["field1", "field2"] ∧ (registry.allFieldNames ⟨38⟩).Nodup ∧
      (∀ own ∈ registry.ownFields ⟨38⟩, ∀ inherited ∈ registry.ownFields ⟨37⟩,
        own.name ≠ inherited.name) ∧
      (∀ field ∈ registry.ownFields ⟨38⟩, Legality.checkIdentifier field.name = .ok ()) ∧
      Legality.checkIdentifier (registry.nameOf ⟨38⟩) = .ok () ∧
      ∃ definition, registry.get? ⟨39⟩ = some definition ∧
        definition.enumerators.map Enumerator.name = ["Value1", "Value2"] ∧
        (definition.enumerators.map Enumerator.name).Nodup ∧
        ∀ enumerator ∈ definition.enumerators, Legality.checkIdentifier enumerator.name = .ok () := by
  dsimp only
  have hregistry := hasOnlyTypes_derivedFields.registry_eq
  obtain ⟨hfields, hinherited, henumerators, htypeNames, hfieldNames, henumeratorNames, -⟩ :=
    distinct_legal_names_of_reachable reachable_derivedFields
  have hnames : derivedFields.content.registry.allFieldNames ⟨38⟩ = ["field1", "field2"] := by
    rw [hregistry]
    rfl
  have hancestor : (⟨37⟩ : TypeHandle) ∈ derivedFields.content.registry.ancestors ⟨38⟩ := by
    rw [hregistry]
    decide
  have huser : (⟨38⟩ : TypeHandle) ∈ derivedFields.content.registry.userTypes := by
    rw [hregistry]
    decide
  obtain ⟨definition, hfound, hvalues⟩ : ∃ definition,
      derivedFields.content.registry.get? ⟨39⟩ = some definition ∧
        definition.enumerators.map Enumerator.name = ["Value1", "Value2"] := by
    rw [← Option.map_eq_some_iff, hregistry]
    rfl
  exact ⟨hnames, hfields ⟨38⟩, hinherited ⟨38⟩ ⟨37⟩ hancestor, hfieldNames ⟨38⟩, htypeNames ⟨38⟩ huser,
    definition, hfound, hvalues, henumerators ⟨39⟩ definition hfound,
    henumeratorNames ⟨39⟩ definition hfound⟩

end Database
end LiveSchema
