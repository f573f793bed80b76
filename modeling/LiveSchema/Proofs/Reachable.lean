import LiveSchema.Database
import LiveSchema.Proofs.Mutation.Registry
import LiveSchema.Proofs.NameMap
import LiveSchema.Proofs.Value.DefaultSize

/-!
# Databases in memory

The databases that mutations lead to from nothing.  Their registries are well-formed: no type is its
own ancestor, no record holds itself by value, and therefore building a default value always ends.
-/

namespace LiveSchema

/-- A type is declared under the first free name. -/
theorem Content.exists_addType (content : Content) (word : String) (make : String → TypeDefinition) :
    ∃ change, content.addType word make = .ok change ∧
      change.answer = .type content.registry.nextHandle ∧
      change.content = content.withRegistry
        (content.registry.declare (make (content.registry.freshTypeName word))) := by
  have hfree := (content.registry.finds_freshTypeName word).free_name
  simp only [addType, hfree]
  exact ⟨_, rfl, rfl, rfl⟩

/-- A base type that may be set is set, and what is stored is fitted to it. -/
theorem Content.exists_setRecordBaseType (content : Content) {record : TypeHandle}
    {base : Option TypeReference}
    (hcheck : Legality.checkBase content.registry record base = .ok ()) :
    ∃ change, Mutation.carryOut content (.setRecordBaseType record base) = .ok change ∧
      change.answer = .done ∧
      change.content = ⟨content.registry.setBase record base,
        (content.stores.conformRecords (content.registry.setBase record base) record).2⟩ := by
  unfold Mutation.carryOut Content.setRecordBaseType
  simp only [hcheck, bind, Except.bind]
  exact ⟨_, rfl, rfl, rfl⟩

/-- A field may get a type that it may have, and what is stored under it is converted. -/
theorem Content.exists_setFieldType (content : Content) {record : TypeHandle} {field : String}
    {type : TypeReference} {index : Nat} {own : Field}
    (hfound : content.checkOwnField record field = .ok (index, own))
    (htype : Legality.checkFieldType content.registry record (some type) = .ok ())
    (hflags : Legality.checkFieldFlags content.registry record type own.flags = .ok ()) :
    let after := content.registry.modifyFields record fun fields =>
      fields.modify index fun own => { own with type := type }
    ∃ change, Mutation.carryOut content (.setFieldType record field type) = .ok change ∧
      change.answer = .conversion (after.classify own.type type) ∧
      change.content =
        ⟨after, (content.stores.convertField after record own.name own.type type).2⟩ := by
  unfold Mutation.carryOut Content.setFieldType
  simp only [hfound, htype, hflags, bind, Except.bind]
  exact ⟨_, rfl, rfl, rfl⟩

/-- A root that may be added holds the default of its type. -/
theorem Content.exists_addRoot (content : Content) {store root : String} {type : TypeReference}
    {kept : Store} {value : Json} (hkept : content.stores.get? store = some kept)
    (hname : Legality.checkIdentifier root = .ok ()) (hfree : NameMap.contains kept root = false)
    (hlegal : Legality.checkReference content.registry type = .ok ())
    (hsize : content.registry.defaultSize type ≤ maxDefaultValues)
    (hvalue : content.registry.defaultValue type = value) :
    ∃ change, Mutation.carryOut content (.addRoot store root type) = .ok change ∧
      change.params = [("store", .string store), ("root", .string root),
        ("type", .string (content.registry.render type))] ∧
      change.content = { content with
        stores := content.stores.insert store (NameMap.insert kept root ⟨type, value⟩) } := by
  have hchecked : Legality.checkDefaultSize content.registry type = .ok () :=
    if_neg (Nat.not_lt.mpr hsize)
  unfold Mutation.carryOut Content.addRoot
  simp only [bind_eq_ok, Content.checkStore_eq_ok, refuse_if_eq_ok, pure_eq_ok, hvalue]
  exact ⟨_, ⟨kept, hkept, (), hname, by simp [hfree], (), hlegal, (), hchecked, rfl⟩, rfl, rfl⟩

namespace Database

open Relation

variable {digest : String → String} {database : Database}

/-- The databases that any sequence of mutations leads to from one that starts from nothing and is
kept in memory.  A mutation that is refused is one of the sequence too. -/
inductive Reachable (digest : String → String) : Database → Prop
  | fresh : Reachable digest inMemory
  | step {database : Database} (h : Reachable digest database) (time : Timestamp)
      (files : Directory) (mutation : Mutation) :
      Reachable digest (database.apply digest time files mutation).database

/-- What some mutations, one after the other, make of nothing. -/
def ofMutations (mutations : List Mutation) : Database :=
  mutations.foldl (fun database mutation => (database.apply id ⟨0, 0⟩ NameMap.empty mutation).database)
    inMemory

theorem ofMutations_concat (mutations : List Mutation) (mutation : Mutation) :
    ofMutations (mutations ++ [mutation]) =
      ((ofMutations mutations).apply id ⟨0, 0⟩ NameMap.empty mutation).database := by
  rw [ofMutations, List.foldl_append]
  rfl

theorem reachable_ofMutations (mutations : List Mutation) : Reachable id (ofMutations mutations) := by
  suffices h : ∀ database, Reachable id database → Reachable id (mutations.foldl
      (fun database mutation => (database.apply id ⟨0, 0⟩ NameMap.empty mutation).database) database)
    from h inMemory .fresh
  induction mutations with
  | nil => exact fun _ => id
  | cons mutation rest ih =>
      exact fun database h => ih _ (h.step ⟨0, 0⟩ NameMap.empty mutation)

/-- Writing to files does not change the content. -/
theorem commit_content (database : Database) (files : Directory) (record : AuditRecord) :
    (database.commit files record).1.content = database.content := by
  unfold commit
  cases database.project with
  | none => rfl
  | some project =>
      cases hfiles : files.append project.logFile (record.render ++ "\n") with
      | error error => simp [hfiles]
      | ok files => simp [hfiles, Database.record]

/-- A mutation either changes nothing or leads to the content of a change that was carried out. -/
theorem apply_content_cases (digest : String → String) (database : Database) (time : Timestamp)
    (files : Directory) (mutation : Mutation) :
    (∃ error, mutation.carryOut database.content = .error error ∧
        (database.apply digest time files mutation).database = database) ∨
      ∃ change, mutation.carryOut database.content = .ok change ∧
        (database.apply digest time files mutation).database.content = change.content := by
  unfold apply
  cases hchange : mutation.carryOut database.content with
  | error error => exact Or.inl ⟨error, rfl, rfl⟩
  | ok change => exact Or.inr ⟨change, rfl, commit_content _ files _⟩

/-- A mutation that is carried out leads to the content of its change. -/
theorem apply_content_of_carryOut (time : Timestamp) (files : Directory) {mutation : Mutation}
    {change : Change} (h : mutation.carryOut database.content = .ok change) :
    (database.apply digest time files mutation).database.content = change.content := by
  rcases apply_content_cases digest database time files mutation with
    ⟨error, herror, -⟩ | ⟨other, hother, hcontent⟩
  · exact absurd (herror.symm.trans h) (by simp)
  · rw [hcontent, Except.ok.inj (hother.symm.trans h)]

theorem content_addRoot (time : Timestamp) (files : Directory) {store root : String}
    {type : TypeReference} {kept : Store} {value : Json}
    (hkept : database.content.stores.get? store = some kept)
    (hname : Legality.checkIdentifier root = .ok ()) (hfree : NameMap.contains kept root = false)
    (hlegal : Legality.checkReference database.content.registry type = .ok ())
    (hsize : database.content.registry.defaultSize type ≤ maxDefaultValues)
    (hvalue : database.content.registry.defaultValue type = value) :
    (database.apply digest time files (.addRoot store root type)).database.content = {
      database.content with
      stores := database.content.stores.insert store (NameMap.insert kept root ⟨type, value⟩) } := by
  obtain ⟨change, hchange, -, hcontent⟩ :=
    database.content.exists_addRoot hkept hname hfree hlegal hsize hvalue
  exact (apply_content_of_carryOut time files hchange).trans hcontent

/-! ## Databases without roots

A run on fixed inputs often declares its types before it adds a root.  So long as there is none, a
mutation changes the registry alone. -/

/-- The database has the types of a registry, and no roots. -/
def HasOnlyTypes (database : Database) (registry : Registry) : Prop :=
  database.content = Content.initial.withRegistry registry

section HasOnlyTypes

variable {registry : Registry} {record : TypeHandle} (time : Timestamp) (files : Directory)

theorem HasOnlyTypes.registry_eq (h : database.HasOnlyTypes registry) :
    database.content.registry = registry :=
  congrArg Content.registry h

theorem HasOnlyTypes.apply {after : Registry} {mutation : Mutation}
    (h : database.HasOnlyTypes registry)
    (hchange : ∃ change, mutation.carryOut (Content.initial.withRegistry registry) = .ok change ∧
      change.content = Content.initial.withRegistry after) :
    (database.apply digest time files mutation).database.HasOnlyTypes after := by
  obtain ⟨change, hchange, hcontent⟩ := hchange
  rw [← show database.content = _ from h] at hchange
  exact (apply_content_of_carryOut time files hchange).trans hcontent

/-- A type is declared under the first free name. -/
theorem HasOnlyTypes.addType {mutation : Mutation} {word name : String}
    {make : String → TypeDefinition} (h : database.HasOnlyTypes registry)
    (hmutation : ∀ content, mutation.carryOut content = content.addType word make)
    (hname : registry.freshTypeName word = name) :
    (database.apply digest time files mutation).database.HasOnlyTypes
      (registry.declare (make name)) := by
  refine h.apply time files ?_
  obtain ⟨change, hchange, -, hcontent⟩ :=
    (Content.initial.withRegistry registry).exists_addType word make
  exact ⟨change, (hmutation _).trans hchange, hname ▸ hcontent⟩

/-- A base type that may be set is set, and nothing has to be fitted to it. -/
theorem HasOnlyTypes.setRecordBaseType {base : Option TypeReference}
    (h : database.HasOnlyTypes registry)
    (hcheck : Legality.checkBase registry record base = .ok ()) :
    (database.apply digest time files (.setRecordBaseType record base)).database.HasOnlyTypes
      (registry.setBase record base) := by
  refine h.apply time files ?_
  obtain ⟨change, hchange, -, hcontent⟩ :=
    (Content.initial.withRegistry registry).exists_setRecordBaseType hcheck
  exact ⟨change, hchange, hcontent⟩

/-- A record gets a field under the first free name. -/
theorem HasOnlyTypes.addField {definition : TypeDefinition} (h : database.HasOnlyTypes registry)
    (hrecord : Legality.checkRecord registry record = .ok definition) {name : String}
    (hname : Content.freshFieldName registry record = name) :
    (database.apply digest time files (.addField record)).database.HasOnlyTypes
      (registry.modifyFields record fun fields =>
        fields ++ [⟨name, .plain Registry.void, .empty, ""⟩]) := by
  refine h.apply time files ?_
  unfold Mutation.carryOut Content.addField
  simp only [Content.withRegistry, hrecord, hname, bind, Except.bind]
  exact ⟨_, rfl, rfl⟩

/-- A field gets a type that it may have. -/
theorem HasOnlyTypes.setFieldType {field : String} {type : TypeReference} {index : Nat} {own : Field}
    (h : database.HasOnlyTypes registry)
    (hfound : (Content.initial.withRegistry registry).checkOwnField record field = .ok (index, own))
    (htype : Legality.checkFieldType registry record (some type) = .ok ())
    (hflags : Legality.checkFieldFlags registry record type own.flags = .ok ()) :
    (database.apply digest time files (.setFieldType record field type)).database.HasOnlyTypes
      (registry.modifyFields record fun fields =>
        fields.modify index fun own => { own with type := type }) := by
  refine h.apply time files ?_
  obtain ⟨change, hchange, -, hcontent⟩ :=
    (Content.initial.withRegistry registry).exists_setFieldType hfound htype hflags
  exact ⟨change, hchange, hcontent⟩

/-- The main store gets the first root. -/
theorem HasOnlyTypes.addRoot {store root : String} {type : TypeReference} {value : Json}
    (h : database.HasOnlyTypes registry) (hmain : store = mainStore)
    (hname : Legality.checkIdentifier root = .ok ())
    (hlegal : Legality.checkReference registry type = .ok ())
    (hsize : registry.defaultSize type ≤ maxDefaultValues)
    (hvalue : registry.defaultValue type = value) :
    (database.apply digest time files (.addRoot store root type)).database.content =
      ⟨registry, .single root ⟨type, value⟩⟩ := by
  obtain ⟨project, content, ledger⟩ := database
  subst hmain
  obtain rfl : content = Content.initial.withRegistry registry := h
  exact content_addRoot time files rfl hname rfl hlegal hsize hvalue

/-- A root of a record with one field, whose type is simple. -/
theorem HasOnlyTypes.addRoot_of_single_field {store root : String} {type : TypeReference}
    {own : Field} {definition inner : TypeDefinition} {body : Record} {builtin : Builtin}
    {value : Json}
    (h : database.HasOnlyTypes registry) (hmain : store = mainStore)
    (hname : Legality.checkIdentifier root = .ok ())
    (hlegal : Legality.checkReference registry type = .ok ())
    (hfound : registry.get? type.handle = some definition) (hbody : definition.body = .record body)
    (hfields : registry.allFields type.handle = [own])
    (hinner : registry.get? own.type.handle = some inner) (hsimple : inner.body = .builtin builtin)
    (harray : builtin ≠ .array) (hvariant : builtin ≠ .variant)
    (hvalue : .object [(own.name, Registry.simpleDefault builtin)] = value) :
    (database.apply digest time files (.addRoot store root type)).database.content =
      ⟨registry, .single root ⟨type, value⟩⟩ := by
  obtain ⟨hdefault, hsize⟩ :=
    Registry.default_of_single_field hfound hbody hfields hinner hsimple harray hvariant
  exact h.addRoot time files hmain hname hlegal hsize (hdefault.trans hvalue)

/-- An enumeration gets an enumerator under the first free name. -/
theorem HasOnlyTypes.addEnumerator {handle : TypeHandle} {definition : TypeDefinition}
    {enumeration : Enumeration} {name : String} (h : database.HasOnlyTypes registry)
    (hfound : Legality.checkEnumeration registry handle = .ok (definition, enumeration))
    (hname : Content.freshEnumeratorName registry handle enumeration = name) :
    (database.apply digest time files (.addEnumerator handle)).database.HasOnlyTypes
      (registry.modifyEnumerators handle fun enumerators => enumerators ++ [⟨name, none, ""⟩]) := by
  refine h.apply time files ?_
  unfold Mutation.carryOut Content.addEnumerator
  simp only [Content.withRegistry, hfound, hname, bind, Except.bind]
  exact ⟨_, rfl, rfl⟩

end HasOnlyTypes

/-- One more mutation in a sequence. -/
theorem HasOnlyTypes.concat {registry : Registry} {mutations : List Mutation} {mutation : Mutation}
    (h : ((ofMutations mutations).apply id ⟨0, 0⟩ NameMap.empty mutation).database.HasOnlyTypes
      registry) :
    (ofMutations (mutations ++ [mutation])).HasOnlyTypes registry := by
  rwa [ofMutations_concat]

/-- The built-in types, and structs of some names. -/
def ofStructs (names : List String) : Registry :=
  names.foldl (fun registry name => registry.declare (.newRecord .struct name)) .initial

theorem freshTypeName_initial : Registry.initial.freshTypeName "Struct" = "Struct1" :=
  rfl

theorem freshTypeName_second : (ofStructs ["Struct1"]).freshTypeName "Struct" = "Struct2" := by
  decide

theorem checkIdentifier_root : Legality.checkIdentifier "root" = .ok () := by
  decide

theorem hasOnlyTypes_of_one_struct (time : Timestamp) :
    (inMemory.apply id time NameMap.empty .addStruct).database.HasOnlyTypes
      (ofStructs ["Struct1"]) := by
  have hempty : inMemory.HasOnlyTypes .initial := rfl
  exact hempty.addType time NameMap.empty (fun _ => rfl) freshTypeName_initial

theorem hasOnlyTypes_of_two_structs (first second : Timestamp) :
    ((inMemory.apply id first NameMap.empty .addStruct).database.apply id second NameMap.empty
      .addStruct).database.HasOnlyTypes (ofStructs ["Struct1", "Struct2"]) :=
  (hasOnlyTypes_of_one_struct first).addType second NameMap.empty (fun _ => rfl)
    freshTypeName_second

theorem hasOnlyTypes_ofMutations_one_struct :
    (ofMutations [.addStruct]).HasOnlyTypes (ofStructs ["Struct1"]) := by
  have hempty : (ofMutations []).HasOnlyTypes .initial := rfl
  exact (hempty.addType ⟨0, 0⟩ NameMap.empty (fun _ => rfl) freshTypeName_initial).concat

theorem hasOnlyTypes_ofMutations_two_structs :
    (ofMutations [.addStruct, .addStruct]).HasOnlyTypes (ofStructs ["Struct1", "Struct2"]) :=
  (hasOnlyTypes_ofMutations_one_struct.addType ⟨0, 0⟩ NameMap.empty (fun _ => rfl)
    freshTypeName_second).concat

theorem hasOnlyTypes_ofMutations_three_structs :
    (ofMutations [.addStruct, .addStruct, .addStruct]).HasOnlyTypes
      (ofStructs ["Struct1", "Struct2", "Struct3"]) := by
  have hname : (ofStructs ["Struct1", "Struct2"]).freshTypeName "Struct" = "Struct3" := rfl
  exact (hasOnlyTypes_ofMutations_two_structs.addType ⟨0, 0⟩ NameMap.empty (fun _ => rfl)
    hname).concat

/-! ## What holds of all of them -/

/-- What holds at first and is kept by every mutation that is carried out holds of every content that
can be reached. -/
theorem Reachable.content_induction {motive : Content → Prop} (hfresh : motive .initial)
    (hstep : ∀ content mutation change, motive content →
      Mutation.carryOut content mutation = .ok change → motive change.content)
    (h : Reachable digest database) : motive database.content := by
  induction h with
  | fresh => exact hfresh
  | @step database _ time files mutation ih =>
      rcases apply_content_cases digest database time files mutation with
        ⟨_, -, hsame⟩ | ⟨change, hchange, hcontent⟩
      · rw [hsame]
        exact ih
      · rw [hcontent]
        exact hstep database.content mutation change ih hchange

/-- Mutations keep the registry well-formed. -/
theorem Reachable.wellFormed (h : Reachable digest database) :
    database.content.registry.WellFormed :=
  h.content_induction (motive := fun content => content.registry.WellFormed)
    Registry.wellFormed_initial fun _ _ _ hwf hchange =>
      Mutation.wellFormed_carryOut hwf hchange

/-- In every database that can be reached, no type is its own ancestor and no record holds itself by
value; so building the default of a type that passes the check ends, and never meets a record within
itself. -/
theorem no_circles_of_reachable (h : Reachable digest database) :
    (∀ type, ¬ TransGen database.content.registry.DerivesFrom type type) ∧
      (∀ record, ¬ TransGen database.content.registry.ByValue record record) ∧
      ∀ reference, Legality.checkReference database.content.registry reference = .ok () →
        Acc (fun part whole => database.content.registry.Builds whole part) reference ∧
          ∃ value, database.content.registry.default? reference = some value := by
  have hwf := h.wellFormed
  refine ⟨hwf.inheritance, hwf.containment, fun reference _ => ⟨?_, ?_⟩⟩
  · exact hwf.acc_builds reference
  · exact hwf.exists_default? reference

/-- Three structs, of which the first has a field of the type of the second, and the third derives from
the first. -/
def heldAndDerived : Database :=
  ofMutations [.addStruct, .addStruct, .addStruct, .addField ⟨37⟩,
    .setFieldType ⟨37⟩ "field1" (.plain ⟨38⟩), .setRecordBaseType ⟨39⟩ (some (.plain ⟨37⟩))]

/-- The types when the field has no type yet, -/
def firstField : Registry :=
  (ofStructs ["Struct1", "Struct2", "Struct3"]).modifyFields ⟨37⟩ fun fields =>
    fields ++ [⟨"field1", .plain Registry.void, .empty, ""⟩]

/-- and before the third struct derives from the first. -/
def heldTypes : Registry :=
  firstField.modifyFields ⟨37⟩ fun fields =>
    fields.modify 0 fun own => { own with type := .plain ⟨38⟩ }

theorem hasOnlyTypes_firstField :
    (ofMutations [.addStruct, .addStruct, .addStruct, .addField ⟨37⟩]).HasOnlyTypes firstField := by
  have hname : Content.freshFieldName (ofStructs ["Struct1", "Struct2", "Struct3"]) ⟨37⟩ = "field1" :=
    Registry.freshFieldName_of_no_fields ⟨_, rfl, rfl⟩ rfl (by decide)
  exact (hasOnlyTypes_ofMutations_three_structs.addField ⟨0, 0⟩ NameMap.empty rfl hname).concat

theorem hasOnlyTypes_heldAndDerived :
    heldAndDerived.HasOnlyTypes (heldTypes.setBase ⟨39⟩ (some (.plain ⟨37⟩))) := by
  have htype : Legality.checkFieldType firstField ⟨37⟩ (some (.plain ⟨38⟩)) = .ok () :=
    Legality.checkFieldType_eq_ok.mpr ⟨⟨_, rfl, rfl⟩, rfl,
      Registry.findOpen?_plain_eq_none (by decide) rfl⟩
  have hheld : (ofMutations [.addStruct, .addStruct, .addStruct, .addField ⟨37⟩,
      .setFieldType ⟨37⟩ "field1" (.plain ⟨38⟩)]).HasOnlyTypes heldTypes :=
    (hasOnlyTypes_firstField.setFieldType ⟨0, 0⟩ NameMap.empty rfl htype rfl).concat
  have hbase : Legality.checkBase heldTypes ⟨39⟩ (some (.plain ⟨37⟩)) = .ok () :=
    Registry.checkBase_of_flat rfl rfl rfl (by decide) (by decide)
  exact (hheld.setRecordBaseType ⟨0, 0⟩ NameMap.empty hbase).concat

/-- The third struct holds the second one by value, too, and has a default. -/
theorem no_circles_of_holding_and_derived :
    let registry := heldAndDerived.content.registry
    registry.DerivesFrom ⟨39⟩ ⟨37⟩ ∧ registry.ByValue ⟨37⟩ ⟨38⟩ ∧ registry.ByValue ⟨39⟩ ⟨38⟩ ∧
      (∀ type, ¬ TransGen registry.DerivesFrom type type) ∧
      (∀ record, ¬ TransGen registry.ByValue record record) ∧
      ∃ value, registry.default? (.plain ⟨39⟩) = some value := by
  dsimp only
  have hreachable : Reachable id heldAndDerived := reachable_ofMutations _
  obtain ⟨hinheritance, hcontainment, hdefaults⟩ := no_circles_of_reachable hreachable
  have hregistry := hasOnlyTypes_heldAndDerived.registry_eq
  have hderives : heldAndDerived.content.registry.DerivesFrom ⟨39⟩ ⟨37⟩ := by
    rw [Registry.DerivesFrom, hregistry]
    decide
  have hholds : ∀ record : TypeHandle, record = ⟨37⟩ ∨ record = ⟨39⟩ →
      heldAndDerived.content.registry.ByValue record ⟨38⟩ := by
    rintro record hrecord
    refine ⟨⟨"field1", .plain ⟨38⟩, .empty, ""⟩, ?_, .head _⟩
    rw [hregistry]
    rcases hrecord with rfl | rfl <;> decide
  have hlegal : Legality.checkReference heldAndDerived.content.registry (.plain ⟨39⟩) = .ok () := by
    rw [hregistry]
    rfl
  exact ⟨hderives, hholds _ (.inl rfl), hholds _ (.inr rfl), hinheritance, hcontainment,
    (hdefaults (.plain ⟨39⟩) hlegal).2⟩

end Database
end LiveSchema
