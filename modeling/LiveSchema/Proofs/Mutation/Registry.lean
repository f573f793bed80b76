import LiveSchema.Proofs.Mutation.Steps
import LiveSchema.Proofs.Schema.LegalNames
import LiveSchema.Proofs.Schema.Rebase
import LiveSchema.Proofs.Schema.Unused
import LiveSchema.Schema.NameIndex

/-!
# What mutations make of registries

A mutation that is not refused makes a transition of the registry, which says along with the change
which checks it has passed.  What holds of the first registry and is kept by every transition holds
whatever mutations were carried out.

The first such property is that the registry is well-formed.
-/

namespace LiveSchema

/-! ## Transitions -/

namespace Registry

/-- What a mutation makes of the own fields of a record. -/
inductive FieldsTransition (registry : Registry) (record : TypeHandle) :
    (List Field → List Field) → Prop
  | added :
    FieldsTransition registry record (Content.withNewField (Content.freshFieldName registry record))
  | renamed {index : Nat} {own : Field} {name : String}
    (hindex : (registry.ownFields record)[index]? = some own)
    (hname : Legality.checkFieldName registry record (some own.name) name = .ok ()) :
    FieldsTransition registry record fun fields =>
      fields.modify index fun own => { own with name := name }
  | retyped {index : Nat} {own : Field} {type : TypeReference}
    (hindex : (registry.ownFields record)[index]? = some own)
    (htype : Legality.checkFieldType registry record (some type) = .ok ())
    (hflags : Legality.checkFieldFlags registry record type own.flags = .ok ()) :
    FieldsTransition registry record fun fields =>
      fields.modify index fun own => { own with type := type }
  | flagged {index : Nat} {own : Field} {flags : FieldFlags}
    (hindex : (registry.ownFields record)[index]? = some own)
    (hflags : Legality.checkFieldFlags registry record own.type flags = .ok ()) :
    FieldsTransition registry record fun fields =>
      fields.modify index fun own => { own with flags := flags }
  | exchanged (first second : Nat) :
    FieldsTransition registry record fun fields => Content.exchange fields first second
  | erased (index : Nat) : FieldsTransition registry record fun fields => fields.eraseIdx index

/-- What a mutation makes of the enumerators of an enumeration. -/
inductive EnumeratorsTransition (registry : Registry) (type : TypeHandle) (enumeration : Enumeration) :
    (List Enumerator → List Enumerator) → Prop
  | added :
    EnumeratorsTransition registry type enumeration
      (Content.withNewEnumerator (Content.freshEnumeratorName registry type enumeration))
  | renamed {index : Nat} {name : String}
    (hname : Legality.checkEnumeratorName registry type (some index) name = .ok ()) :
    EnumeratorsTransition registry type enumeration fun enumerators =>
      enumerators.modify index fun own => { own with name := name }
  | renumbered {g : List Enumerator → List Enumerator}
    (hnames : ((g enumeration.enumerators).map Enumerator.name).Sublist
      (enumeration.enumerators.map Enumerator.name)) :
    EnumeratorsTransition registry type enumeration g

/-- What a mutation makes of a registry, and what this means for the names of types. -/
inductive Transition (before : Registry) : NameChange → Registry → Prop
  | same : Transition before .kept before
  | declaredRecord (kind : RecordKind) {name : String} (hname : Legality.IsIdentifier name)
    (hfree : before.resolve? name = none) :
    Transition before (.declared (.newRecord kind name)) (before.declare (.newRecord kind name))
  | declaredEnumeration {name : String} (hname : Legality.IsIdentifier name)
    (hfree : before.resolve? name = none) :
    Transition before (.declared (.newEnumeration name)) (before.declare (.newEnumeration name))
  | renamed {type : TypeHandle} {definition : TypeDefinition} {name : String}
    (hfound : before.get? type = some definition) (huser : definition.isBuiltin = false)
    (hname : Legality.IsIdentifier name)
    (hfree : ∀ existing, before.resolve? name = some existing → existing = type) :
    Transition before (.renamed type name) (before.rename type name)
  | removed {type : TypeHandle} {definition : TypeDefinition} (stores : Stores)
    (hfound : before.get? type = some definition) (huser : definition.isBuiltin = false)
    (hunused : (Content.usages ⟨before, stores⟩ type).filter Usage.isBlocking = []) :
    Transition before (.removed type) (before.remove type)
  | rebased {record : TypeHandle} {base : Option TypeReference}
    (hbase : Legality.checkBase before record base = .ok ()) :
    Transition before .kept (before.setBase record base)
  | flagged {record : TypeHandle} {flags : RecordFlags} (hrecord : before.IsRecord record)
    (hflags : Legality.checkRecordFlags before record flags = .ok ()) :
    Transition before .kept (before.modifyRecord record fun own => { own with flags := flags })
  | reshaped {record : TypeHandle} {g : List Field → List Field}
    (hrecord : before.IsRecord record) (hfields : before.FieldsTransition record g) :
    Transition before .kept (before.modifyFields record g)
  | moved {source target : TypeHandle} {index : Nat} {own : Field}
    (hsource : before.IsRecord source) (htarget : before.IsRecord target)
    (hderived : before.isStrictAncestor source target = true)
    (hindex : (before.ownFields source)[index]? = some own)
    (hflags : Legality.checkFieldFlags before target own.type own.flags = .ok ()) :
    Transition before .kept ((before.modifyFields source fun fields =>
      fields.eraseIdx index).modifyFields target fun fields => own :: fields)
  | flattened {record base : TypeHandle} {definition : TypeDefinition}
    (hbase : before.baseOf? record = some base) (hfound : before.get? base = some definition)
    (hflags : ∀ field ∈ definition.fields,
      Legality.checkFieldFlags before record field.type field.flags = .ok ()) :
    Transition before .kept (before.flatten record definition.fields definition.base)
  | enumerated {type : TypeHandle} {definition : TypeDefinition} {enumeration : Enumeration}
    {g : List Enumerator → List Enumerator} (hfound : before.get? type = some definition)
    (hbody : definition.body = .enumeration enumeration)
    (henumerators : before.EnumeratorsTransition type enumeration g) :
    Transition before .kept (before.modifyEnumerators type g)

theorem Transition.of_renumbered {before after : Content} {type : TypeHandle}
    (h : before.Renumbered type after) : before.registry.Transition .kept after.registry := by
  obtain ⟨definition, enumeration, hfound, hbody, g, registry, mapping, removed, hnames, rfl, rfl⟩ :=
    h
  exact .enumerated hfound hbody (.renumbered hnames)

end Registry

namespace Mutation

open Registry

/-- What a mutation means for the names of types. -/
def nameChange (registry : Registry) : Mutation → NameChange
  | addStruct => .declared (.newRecord .struct (registry.freshTypeName "Struct"))
  | addClass => .declared (.newRecord .class (registry.freshTypeName "Class"))
  | addEnum => .declared (.newEnumeration (registry.freshTypeName "Enum"))
  | setTypeName handle name => .renamed handle name
  | deleteType handle => .removed handle
  | _ => .kept

/-- A mutation that is not refused makes a transition. -/
theorem transition_carryOut {content : Content} {mutation : Mutation} {change : Change}
    (h : mutation.carryOut content = .ok change) :
    content.registry.Transition (mutation.nameChange content.registry) change.content.registry := by
  cases mutation with
  | addStruct =>
      obtain ⟨hfree, hcontent⟩ := Content.addType_ok h
      rw [hcontent]
      exact .declaredRecord .struct (isIdentifier_freshTypeName _ isStem_struct) hfree
  | addClass =>
      obtain ⟨hfree, hcontent⟩ := Content.addType_ok h
      rw [hcontent]
      exact .declaredRecord .class (isIdentifier_freshTypeName _ isStem_class) hfree
  | addEnum =>
      obtain ⟨hfree, hcontent⟩ := Content.addType_ok h
      rw [hcontent]
      exact .declaredEnumeration (isIdentifier_freshTypeName _ isStem_enum) hfree
  | setTypeName type name =>
      obtain ⟨⟨definition, hfound, huser⟩, hname, hfree, hcontent⟩ := Content.setTypeName_ok h
      rw [hcontent]
      exact .renamed hfound huser hname hfree
  | setRecordBaseType record base =>
      obtain ⟨hbase, hcontent⟩ := Content.setRecordBaseType_ok h
      rw [hcontent]
      exact .rebased hbase
  | setRecordTable record enabled =>
      obtain ⟨hrecord, flags, hflags, hcontent⟩ := Content.setRecordTable_ok h
      rw [hcontent]
      exact .flagged hrecord hflags
  | deleteType type =>
      obtain ⟨⟨definition, hfound, huser⟩, hunused, hcontent⟩ := Content.deleteType_ok h
      rw [hcontent]
      exact .removed content.stores hfound huser hunused
  | addField record =>
      obtain ⟨hrecord, registry, rfl, hcontent⟩ := Content.addField_ok h
      rw [hcontent]
      exact .reshaped hrecord .added
  | setFieldName record field name =>
      obtain ⟨index, own, registry, hindex, rfl, hname, rfl, hcontent⟩ := Content.setFieldName_ok h
      obtain ⟨hrecord, -⟩ := Legality.checkFieldName_eq_ok.mp hname
      rw [hcontent]
      exact .reshaped hrecord (.renamed hindex hname)
  | setFieldType record field type =>
      obtain ⟨index, own, registry, hindex, -, htype, hflags, rfl, hcontent, -⟩ :=
        Content.setFieldType_checked h
      obtain ⟨hrecord, -⟩ := Legality.checkFieldType_eq_ok.mp htype
      rw [hcontent]
      exact .reshaped hrecord (.retyped hindex htype hflags)
  | setFieldFlags record field flags =>
      obtain ⟨hrecord, index, own, hindex, hflags, hcontent⟩ := Content.setFieldFlags_ok h
      rw [hcontent]
      exact .reshaped hrecord (.flagged hindex hflags)
  | swapFields record first second =>
      obtain ⟨hrecord, registry, rfl, hcontent⟩ := Content.swapFields_ok h
      rw [hcontent]
      exact .reshaped hrecord (.exchanged first second)
  | moveField source field target =>
      obtain ⟨hsource, htarget, hderived, index, own, registry, hindex, -, hflags, rfl, hcontent, -⟩ :=
        Content.moveField_checked h
      rw [hcontent]
      exact .moved hsource htarget hderived hindex hflags
  | flattenBase record =>
      obtain ⟨base, definition, ofBase, registry, hbase, hfound, hbody, hflags, rfl, hcontent⟩ :=
        Content.flattenBase_checked h
      have hfields : ofBase.fields = definition.fields := by simp [TypeDefinition.fields, hbody]
      rw [hfields] at hcontent hflags
      rw [hcontent]
      exact .flattened hbase hfound (forM_eq_ok.mp hflags)
  | deleteField record field =>
      obtain ⟨hrecord, index, own, registry, -, -, rfl, hcontent, -⟩ :=
        Content.deleteField_checked h
      rw [hcontent]
      exact .reshaped hrecord (.erased index)
  | addEnumerator enumeration =>
      obtain ⟨definition, held, hfound, hbody, hcontent⟩ := Content.addEnumerator_ok h
      rw [hcontent]
      exact .enumerated hfound hbody .added
  | setEnumeratorName enumeration index name =>
      obtain ⟨definition, held, hfound, hbody, hname, hcontent⟩ := Content.setEnumeratorName_ok h
      rw [hcontent]
      exact .enumerated hfound hbody (.renamed hname)
  | setEnumeratorValue enumeration index value =>
      exact .of_renumbered (Content.setEnumeratorValue_ok h)
  | deleteEnumerator enumeration index =>
      exact .of_renumbered (Content.deleteEnumerator_ok h)
  | addStore store =>
      obtain ⟨-, -, hcontent⟩ := Content.addStore_ok h
      rw [hcontent]
      exact .same
  | addRoot store root type =>
      obtain ⟨kept, -, -, -, -, hcontent⟩ := Content.addRoot_ok h
      rw [hcontent]
      exact .same
  | setRootValue store root value =>
      obtain ⟨kept, previous, -, -, -, hcontent⟩ := Content.setRootValue_ok h
      rw [hcontent]
      exact .same
  | deleteRoot store root =>
      obtain ⟨kept, removed, -, -, hcontent⟩ := Content.deleteRoot_ok h
      rw [hcontent]
      exact .same

end Mutation

/-! ## Lists -/

/-- The element at a position, between those before it and those after it. -/
theorem exists_split_at {α : Type u} {list : List α} {index : Nat} {a : α}
    (h : list[index]? = some a) :
    ∃ before after, list = before ++ a :: after ∧
      (∀ f : α → α, list.modify index f = before ++ f a :: after) ∧
        list.eraseIdx index = before ++ after := by
  obtain ⟨hbound, rfl⟩ := List.getElem?_eq_some_iff.mp h
  refine ⟨list.take index, list.drop (index + 1), ?_, fun f => ?_, ?_⟩
  · rw [← List.drop_eq_getElem_cons hbound, List.take_append_drop]
  · exact List.modify_eq_take_cons_drop hbound
  · exact List.eraseIdx_eq_take_drop_succ list index

theorem perm_cons_middle {α : Type u} (above before after below : List α) (a : α) :
    (above ++ (before ++ a :: after) ++ below).Perm (a :: (above ++ before ++ after ++ below)) := by
  have h : above ++ (before ++ a :: after) ++ below =
      (above ++ before) ++ a :: (after ++ below) := by simp
  rw [h]
  refine List.perm_middle.trans ?_
  simp

/-- Exchanging two elements changes their order only. -/
theorem exchange_perm {α : Type u} (list : List α) (first second : Nat) :
    (Content.exchange list first second).Perm list := by
  unfold Content.exchange
  split
  next a b ha hb =>
      obtain ⟨hfirst, rfl⟩ := List.getElem?_eq_some_iff.mp ha
      obtain ⟨hsecond, rfl⟩ := List.getElem?_eq_some_iff.mp hb
      exact List.set_set_perm hfirst hsecond
  next => exact List.Perm.refl _

namespace Registry

open Relation

variable {registry : Registry} {record : TypeHandle}

/-! ## Changes of fields -/

/-- A new field of type `void` under a free name. -/
theorem WellFormed.addVoidField (hwf : registry.WellFormed) {name : String}
    (hrecord : registry.IsRecord record)
    (hcheck : Legality.checkFieldName registry record none name = .ok ()) :
    (registry.modifyFields record (Content.withNewField name)).WellFormed := by
  refine hwf.modifyFields _ hrecord ?_ ?_ ?_
  · intro field hfield
    rcases List.mem_append.mp hfield with hfield | hfield
    · exact hwf.fields record field hfield
    · cases List.mem_singleton.mp hfield
      exact hwf.legal_void
  · intro field hfield
    rcases List.mem_append.mp hfield with hfield | hfield
    · exact Or.inl ⟨field, hfield, rfl⟩
    · cases List.mem_singleton.mp hfield
      exact Or.inr (hwf.avoids_void hrecord)
  · intro handle above below hextends hsplit
    have hfree := hwf.not_mem_of_checkFieldName hcheck hextends
    have hwhole := hwf.names_split hsplit
    have hperm := perm_cons_middle above (registry.ownFields record) [] below
      ⟨name, .plain void, .empty, ""⟩
    rw [List.append_nil] at hperm
    refine (hperm.map Field.name).nodup_iff.mpr (List.nodup_cons.mpr ⟨?_, hwhole⟩)
    rwa [allFieldNames, hsplit] at hfree

/-- An own field under a name that passes the check for it. -/
theorem WellFormed.renameField (hwf : registry.WellFormed) {index : Nat} {own : Field}
    {name : String} (hindex : (registry.ownFields record)[index]? = some own)
    (hcheck : Legality.checkFieldName registry record (some own.name) name = .ok ()) :
    (registry.modifyFields record fun fields =>
      fields.modify index fun own => { own with name := name }).WellFormed := by
  obtain ⟨hrecord, -⟩ := Legality.checkFieldName_eq_ok.mp hcheck
  obtain ⟨before, after, hown, hmodify, -⟩ := exists_split_at hindex
  have htypes : ∀ field ∈ before ++ { own with name := name } :: after,
      ∃ old ∈ registry.ownFields record, old.type = field.type := by
    intro field hfield
    rw [hown]
    rcases List.mem_append.mp hfield with hfield | hfield
    · exact ⟨field, List.mem_append_left _ hfield, rfl⟩
    · rcases List.mem_cons.mp hfield with rfl | hfield
      · exact ⟨own, by simp, rfl⟩
      · exact ⟨field, by simp [hfield], rfl⟩
  refine hwf.modifyFields _ hrecord ?_ ?_ ?_
  · intro field hfield
    rw [hmodify] at hfield
    obtain ⟨old, hold, hsame⟩ := htypes field hfield
    exact hsame ▸ hwf.fields record old hold
  · intro field hfield
    rw [hmodify] at hfield
    exact Or.inl (htypes field hfield)
  · intro handle above below hextends hsplit
    have hwhole := hwf.names_split hsplit
    rw [hmodify]
    rw [hown] at hwhole hsplit
    have hbefore := (perm_cons_middle above before after below own).map Field.name
    have hafter := (perm_cons_middle above before after below { own with name := name }).map
      Field.name
    obtain ⟨hnot, hnodup⟩ := List.nodup_cons.mp (hbefore.nodup_iff.mp hwhole)
    refine hafter.nodup_iff.mpr (List.nodup_cons.mpr ⟨fun hmem => ?_, hnodup⟩)
    -- a field of the new name would have to be the renamed field itself
    obtain ⟨field, hfield, hname⟩ := List.mem_map.mp hmem
    have heffective : field ∈ registry.allFields handle := by
      rw [hsplit]
      exact (perm_cons_middle above before after below own).mem_iff.mpr
        (List.mem_cons_of_mem _ hfield)
    have hcurrent := hwf.eq_current_of_checkFieldName hcheck hextends heffective hname
    rw [← Option.some.inj hcurrent] at hmem
    exact hnot hmem

/-- An own field with another type that passes the check for it. -/
theorem WellFormed.retypeField (hwf : registry.WellFormed) {index : Nat} {own : Field}
    {type : TypeReference} (hindex : (registry.ownFields record)[index]? = some own)
    (hcheck : Legality.checkFieldType registry record (some type) = .ok ()) :
    (registry.modifyFields record fun fields =>
      fields.modify index fun own => { own with type := type }).WellFormed := by
  obtain ⟨hrecord, hlegal, hfree⟩ := Legality.checkFieldType_eq_ok.mp hcheck
  obtain ⟨before, after, hown, hmodify, -⟩ := exists_split_at hindex
  have hcases : ∀ field ∈ before ++ { own with type := type } :: after,
      field ∈ registry.ownFields record ∨ field.type = type := by
    intro field hfield
    rw [hown]
    rcases List.mem_append.mp hfield with hfield | hfield
    · exact Or.inl (List.mem_append_left _ hfield)
    · rcases List.mem_cons.mp hfield with rfl | hfield
      · exact Or.inr rfl
      · exact Or.inl (by simp [hfield])
  refine hwf.modifyFields_of_names hrecord ?_ ?_ ?_
  · rw [hmodify, hown]
    simp
  · intro field hfield
    rw [hmodify] at hfield
    rcases hcases field hfield with hold | hnew
    · exact hwf.fields record field hold
    · exact hnew ▸ hlegal
  · intro field hfield
    rw [hmodify] at hfield
    rcases hcases field hfield with hold | hnew
    · exact Or.inl ⟨field, hold, rfl⟩
    · exact Or.inr (hnew ▸ hwf.avoids_of_findOpen? hlegal hfree)

/-- An own field with other flags. -/
theorem WellFormed.setFieldFlags (hwf : registry.WellFormed) (index : Nat) (flags : FieldFlags)
    (hrecord : registry.IsRecord record) :
    (registry.modifyFields record fun fields =>
      fields.modify index fun own => { own with flags := flags }).WellFormed := by
  have htypes : ∀ field ∈ (registry.ownFields record).modify index
      (fun own => { own with flags := flags }),
        ∃ old ∈ registry.ownFields record, old.type = field.type := by
    intro field hfield
    obtain ⟨position, hposition⟩ := List.mem_iff_getElem?.mp hfield
    rw [List.getElem?_modify, Option.map_eq_map, Option.map_eq_some_iff] at hposition
    obtain ⟨old, hold, hsame⟩ := hposition
    refine ⟨old, List.mem_of_getElem? hold, ?_⟩
    split at hsame <;> rw [← hsame]
  refine hwf.modifyFields_of_names hrecord ?_ ?_ ?_
  · refine map_modify_of_eq ?_ _ index
    exact fun _ => rfl
  · intro field hfield
    obtain ⟨old, hold, hsame⟩ := htypes field hfield
    exact hsame ▸ hwf.fields record old hold
  · intro field hfield
    exact Or.inl (htypes field hfield)

theorem WellFormed.exchangeFields (hwf : registry.WellFormed) (first second : Nat)
    (hrecord : registry.IsRecord record) :
    (registry.modifyFields record fun fields =>
      Content.exchange fields first second).WellFormed :=
  hwf.modifyFields_of_subperm hrecord (exchange_perm _ first second).subperm

theorem WellFormed.eraseField (hwf : registry.WellFormed) (index : Nat)
    (hrecord : registry.IsRecord record) :
    (registry.modifyFields record fun fields => fields.eraseIdx index).WellFormed :=
  hwf.modifyFields_of_subperm hrecord (List.eraseIdx_sublist _ index).subperm

/-! ## Moving a field down -/

section MoveField

variable {source target : TypeHandle} {index : Nat} {own : Field}

/-- The effective fields after a field was taken from the record that declares it. -/
theorem WellFormed.allFields_eraseField (hwf : registry.WellFormed)
    (hrecord : registry.IsRecord source)
    (hindex : (registry.ownFields source)[index]? = some own) {handle : TypeHandle}
    (hextends : registry.Extends handle source) :
    ∃ above below, registry.allFields handle = above ++ own :: below ∧
      (registry.modifyFields source fun fields => fields.eraseIdx index).allFields handle =
        above ++ below := by
  obtain ⟨before, after, hown, -, herase⟩ := exists_split_at hindex
  obtain ⟨above, below, hold, hnew⟩ :=
    hwf.allFields_modifyFields (fun fields => fields.eraseIdx index) hrecord hextends
  refine ⟨above ++ before, after ++ below, ?_, ?_⟩
  · rw [hold, hown]
    simp
  · rw [hnew, herase]
    simp

/-- A field moves to a record that extends the one that declares it. -/
theorem WellFormed.moveField (hwf : registry.WellFormed)
    (hsource : registry.IsRecord source) (htarget : registry.IsRecord target)
    (hextends : registry.Extends target source)
    (hindex : (registry.ownFields source)[index]? = some own) :
    ((registry.modifyFields source fun fields => fields.eraseIdx index).modifyFields target
      fun fields => own :: fields).WellFormed := by
  have herased : (registry.modifyFields source fun fields => fields.eraseIdx index).WellFormed :=
    hwf.eraseField index hsource
  have hmem : own ∈ registry.ownFields source := List.mem_of_getElem? hindex
  have hbelow : ∀ handle,
      (registry.modifyFields source fun fields => fields.eraseIdx index).Extends handle target →
        registry.Extends handle source := fun handle h => by
    rw [extends_modifyFields] at h
    exact h.trans hextends
  refine herased.modifyFields _ (isRecord_modifyFields _ htarget) ?_ ?_ ?_
  · intro field hfield
    rcases List.mem_cons.mp hfield with rfl | hfield
    · obtain ⟨d, hd, hisRecord⟩ := hsource
      exact legal_modify hd (TypeDefinition.mapRecord_outline d fun _ => rfl)
        (hwf.fields source _ hmem)
    · exact herased.fields target field hfield
  · intro field hfield
    rcases List.mem_cons.mp hfield with rfl | hfield
    · -- what the field held before was no record below the one that declares it
      refine Or.inr fun part reached hheld hpath hreached => ?_
      have hheld' := holds_congr hwf.toFormed herased.toFormed hheld
      have hpath' : ReflTransGen registry.ByValue part reached := by
        refine ReflTransGen.mono (fun a b => ?_) part reached hpath
        rintro ⟨other, hother, hholds⟩
        refine ⟨other, ?_, holds_congr hwf.toFormed herased.toFormed hholds⟩
        by_cases hbelowSource : registry.Extends a source
        · obtain ⟨above, below, hold, hnew⟩ :=
            hwf.allFields_eraseField hsource hindex hbelowSource
          rw [hnew] at hother
          rw [hold]
          simp only [List.mem_append, List.mem_cons] at hother ⊢
          exact hother.imp_right Or.inr
        · rwa [hwf.allFields_modifyFields_of_not_extends _ hbelowSource] at hother
      have hstep : registry.ByValue reached part :=
        ⟨field, (mem_allFields_iff hwf.inheritance).mpr ⟨source, hbelow reached hreached, hmem⟩,
          hheld'⟩
      exact hwf.containment part (TransGen.tail' hpath' hstep)
    · exact Or.inl ⟨field, hfield, rfl⟩
  · intro handle above below hhandle hsplit
    obtain ⟨upper, lower, hold, hnew⟩ :=
      hwf.allFields_eraseField hsource hindex (hbelow handle hhandle)
    have hnames := hwf.names handle
    rw [allFieldNames, hold] at hnames
    have hnodup := (List.perm_middle.map Field.name).nodup_iff.mp hnames
    rw [← hnew, hsplit] at hnodup
    have hperm := perm_cons_middle above []
      ((registry.modifyFields source fun fields => fields.eraseIdx index).ownFields target) below own
    rw [List.append_nil] at hperm
    exact (hperm.map Field.name).nodup_iff.mpr hnodup

end MoveField

/-! ## New types -/

theorem WellFormed.declareRecord (hwf : registry.WellFormed) (kind : RecordKind) {name : String}
    (hfree : registry.resolve? name = none) :
    (registry.declare (.newRecord kind name)).WellFormed :=
  hwf.declare rfl rfl rfl rfl hfree

theorem WellFormed.declareEnumeration (hwf : registry.WellFormed) {name : String}
    (hfree : registry.resolve? name = none) :
    (registry.declare (.newEnumeration name)).WellFormed :=
  hwf.declare rfl rfl rfl rfl hfree

/-! ## Every transition -/

theorem WellFormed.fieldsTransition (hwf : registry.WellFormed) (hrecord : registry.IsRecord record)
    {g : List Field → List Field} (h : registry.FieldsTransition record g) :
    (registry.modifyFields record g).WellFormed := by
  cases h with
  | added => exact hwf.addVoidField hrecord (checkFieldName_freshFieldName hrecord)
  | renamed hindex hname => exact hwf.renameField hindex hname
  | retyped hindex htype _ => exact hwf.retypeField hindex htype
  | flagged _ _ => exact hwf.setFieldFlags _ _ hrecord
  | exchanged first second => exact hwf.exchangeFields first second hrecord
  | erased index => exact hwf.eraseField index hrecord

theorem WellFormed.transition (hwf : registry.WellFormed) {change : NameChange} {after : Registry}
    (h : registry.Transition change after) : after.WellFormed := by
  cases h with
  | same => exact hwf
  | declaredRecord kind _ hfree => exact hwf.declareRecord kind hfree
  | declaredEnumeration _ hfree => exact hwf.declareEnumeration hfree
  | renamed hfound huser _ hfree => exact hwf.rename _ hfound huser hfree
  | removed stores hfound huser hunused =>
      exact hwf.remove hfound huser (Content.unused_of_usages hwf.toFormed hunused)
  | rebased hbase => exact hwf.setBase hbase
  | flagged hrecord _ => exact hwf.modifyRecord_flags _ hrecord
  | reshaped hrecord hfields => exact hwf.fieldsTransition hrecord hfields
  | moved hsource htarget hderived hindex _ =>
      rw [isStrictAncestor, Bool.and_eq_true, isParentOf_iff] at hderived
      exact hwf.moveField hsource htarget hderived.2 hindex
  | flattened hbase hfound _ => exact hwf.flatten hbase hfound
  | enumerated hfound hbody _ =>
      exact hwf.modifyEnumerators _ hfound (TypeDefinition.isBuiltin_of_enumeration hbody)

end Registry

/-- A mutation that is not refused leads to a well-formed registry. -/
theorem Mutation.wellFormed_carryOut {content : Content} {mutation : Mutation} {change : Change}
    (hwf : content.registry.WellFormed) (h : mutation.carryOut content = .ok change) :
    change.content.registry.WellFormed :=
  hwf.transition (transition_carryOut h)

end LiveSchema
