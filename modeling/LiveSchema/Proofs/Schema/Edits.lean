import LiveSchema.Proofs.Checks
import LiveSchema.Proofs.Schema.WellFormed

/-!
# Edits of well-formed registries

The single changes that mutations make of a registry, and what each of them needs to keep the registry
well-formed.
-/

namespace LiveSchema

namespace TypeDefinition

theorem fields_mapRecord {definition : TypeDefinition} {f : Record → Record}
    {g : List Field → List Field} (hfields : ∀ record, (f record).fields = g record.fields)
    (hrecord : definition.isRecord = true) :
    (definition.mapRecord f).fields = g definition.fields := by
  obtain ⟨record, hbody⟩ := isRecord_iff.mp hrecord
  simp [mapRecord, fields, hbody, hfields]

theorem isBuiltin_of_isRecord {definition : TypeDefinition} (h : definition.isRecord = true) :
    definition.isBuiltin = false := by
  obtain ⟨record, hbody⟩ := isRecord_iff.mp h
  exact isBuiltin_of_record hbody

end TypeDefinition

namespace Registry

open Relation

variable {registry : Registry} {handle record : TypeHandle} {definition : TypeDefinition}

/-! ## What holds of each definition -/

/-- Every live type has a property. -/
def Each (registry : Registry) (P : TypeDefinition → Prop) : Prop :=
  ∀ handle definition, registry.get? handle = some definition → P definition

section Each

variable {P : TypeDefinition → Prop}

theorem Each.modify (h : registry.Each P) {f : TypeDefinition → TypeDefinition}
    (hf : ∀ definition, registry.get? handle = some definition → P (f definition)) :
    (registry.modify handle f).Each P := by
  intro other definition hfound
  rcases get?_modify_cases hfound with ⟨old, -, hold, rfl⟩ | hold
  · exact hf old hold
  · exact h other definition hold

theorem Each.declare (h : registry.Each P) (hadded : P definition) :
    (registry.declare definition).Each P := by
  intro other found hfound
  rcases get?_declare_cases hfound with ⟨-, rfl⟩ | hold
  · exact hadded
  · exact h other found hold

theorem Each.remove (h : registry.Each P) (handle : TypeHandle) :
    (registry.remove handle).Each P :=
  fun other definition hfound => h other definition (get?_of_get?_remove hfound).2

end Each

/-! ## Views after a change -/

theorem baseOf?_modify {f : TypeDefinition → TypeDefinition}
    (hbase : ∀ definition, (f definition).base = definition.base) (other : TypeHandle) :
    (registry.modify handle f).baseOf? other = registry.baseOf? other := by
  rw [baseOf?, baseOf?, get?_modify]
  by_cases hsame : other = handle
  · subst hsame
    cases registry.get? other <;> simp [hbase]
  · rw [if_neg hsame]

theorem ownFields_modify {f : TypeDefinition → TypeDefinition}
    (hfields : ∀ definition, (f definition).fields = definition.fields) (other : TypeHandle) :
    (registry.modify handle f).ownFields other = registry.ownFields other := by
  rw [ownFields_eq, ownFields_eq, get?_modify]
  by_cases hsame : other = handle
  · subst hsame
    cases registry.get? other <;> simp [hfields]
  · rw [if_neg hsame]

theorem baseOf?_declare (hbase : definition.base = none) (other : TypeHandle) :
    (registry.declare definition).baseOf? other = registry.baseOf? other := by
  rw [baseOf?, baseOf?, get?_declare]
  by_cases hsame : other = registry.nextHandle
  · simp [hsame, hbase, get?_nextHandle]
  · rw [if_neg hsame]

theorem ownFields_declare (hfields : definition.fields = []) (other : TypeHandle) :
    (registry.declare definition).ownFields other = registry.ownFields other := by
  rw [ownFields_eq, ownFields_eq, get?_declare]
  by_cases hsame : other = registry.nextHandle
  · simp [hsame, hfields, get?_nextHandle]
  · rw [if_neg hsame]

@[simp] theorem baseOf?_modifyFields (g : List Field → List Field) (other : TypeHandle) :
    (registry.modifyFields record g).baseOf? other = registry.baseOf? other :=
  baseOf?_modify (fun _ => TypeDefinition.mapRecord_base _ _) other

theorem ownFields_modifyFields (g : List Field → List Field)
    (hrecord : registry.IsRecord record) :
    (registry.modifyFields record g).ownFields record = g (registry.ownFields record) := by
  obtain ⟨d, hd, hrecord⟩ := hrecord
  have hnew : (registry.modifyFields record g).get? record =
      some (d.mapRecord fun own => { own with fields := g own.fields }) := by
    rw [modifyFields, modifyRecord, get?_modify_self, hd]
    rfl
  rw [ownFields_of_get? hnew, ownFields_of_get? hd]
  exact TypeDefinition.fields_mapRecord (fun _ => rfl) hrecord

theorem derivesFrom_modifyFields (g : List Field → List Field) :
    (registry.modifyFields record g).DerivesFrom = registry.DerivesFrom := by
  funext a b
  rw [DerivesFrom, DerivesFrom, baseOf?_modifyFields]

theorem extends_modifyFields (g : List Field → List Field) :
    (registry.modifyFields record g).Extends = registry.Extends := by
  rw [Extends, Extends, derivesFrom_modifyFields]

theorem agreeApart_modifyFields (registry : Registry) (record : TypeHandle)
    (g : List Field → List Field) :
    AgreeApart registry (registry.modifyFields record g) record :=
  agreeApart_modify registry record _

theorem WellFormed.inheritance_modifyFields (hwf : registry.WellFormed)
    (g : List Field → List Field) : Acyclic (registry.modifyFields record g).DerivesFrom := by
  rw [derivesFrom_modifyFields]
  exact hwf.inheritance

/-- Where the own fields of a record change, they change within the effective fields. -/
theorem WellFormed.allFields_modifyFields (hwf : registry.WellFormed)
    (g : List Field → List Field) (hrecord : registry.IsRecord record)
    (hextends : registry.Extends handle record) :
    ∃ above below,
      registry.allFields handle = above ++ registry.ownFields record ++ below ∧
        (registry.modifyFields record g).allFields handle =
          above ++ g (registry.ownFields record) ++ below := by
  obtain ⟨above, below, hold, hnew⟩ :=
    (agreeApart_modifyFields registry record g).allFields_of_base_eq hwf.inheritance
      (hwf.inheritance_modifyFields g) (baseOf?_modifyFields g record) hextends
  rw [ownFields_modifyFields g hrecord] at hnew
  exact ⟨above, below, hold, hnew⟩

theorem WellFormed.allFields_modifyFields_of_not_extends (hwf : registry.WellFormed)
    (g : List Field → List Field) (hout : ¬ registry.Extends handle record) :
    (registry.modifyFields record g).allFields handle = registry.allFields handle :=
  (agreeApart_modifyFields registry record g).allFields_of_not_extends hwf.inheritance
    (hwf.inheritance_modifyFields g) hout

theorem isRecord_modifyFields (g : List Field → List Field) (h : registry.IsRecord handle) :
    (registry.modifyFields record g).IsRecord handle := by
  obtain ⟨d, hd, hrecord⟩ := h
  rw [IsRecord, modifyFields, modifyRecord, get?_modify]
  by_cases hsame : handle = record
  · subst hsame
    rw [if_pos rfl, hd]
    refine ⟨_, rfl, ?_⟩
    obtain ⟨held, hbody⟩ := TypeDefinition.isRecord_iff.mp hrecord
    rw [TypeDefinition.isRecord_iff]
    simp [TypeDefinition.mapRecord, hbody]
  · rw [if_neg hsame]
    exact ⟨d, hd, hrecord⟩

/-- The base type that a record derives from is that of its definition. -/
theorem Formed.suitable_base (hformed : registry.Formed)
    (hfound : registry.get? handle = some definition) {base : TypeReference}
    (hbase : definition.base = some base) :
    definition.isRecord = true ∧ registry.SuitableBase definition.variant base :=
  hformed.bases handle definition base hfound hbase

/-! ## Own fields -/

/-- The own fields of a record may be changed into others of legal types that avoid the record, as long
as no two effective fields get one name. -/
theorem WellFormed.modifyFields (hwf : registry.WellFormed) (g : List Field → List Field)
    (hrecord : registry.IsRecord record)
    (hlegal : ∀ field ∈ g (registry.ownFields record), registry.Legal field.type)
    (htypes : ∀ field ∈ g (registry.ownFields record),
      (∃ old ∈ registry.ownFields record, old.type = field.type) ∨
        registry.Avoids record field.type)
    (hnames : ∀ handle above below, registry.Extends handle record →
      registry.allFields handle = above ++ registry.ownFields record ++ below →
        ((above ++ g (registry.ownFields record) ++ below).map Field.name).Nodup) :
    (registry.modifyFields record g).WellFormed := by
  have hfields := fun handle (hextends : registry.Extends handle record) =>
    hwf.allFields_modifyFields g hrecord hextends
  obtain ⟨d, hd, hisRecord⟩ := hrecord
  refine hwf.apart record ?_ (agreeApart_modifyFields registry record g)
    (hwf.inheritance_modifyFields g) ?_ ?_ ?_
  · refine hwf.toFormed.modify hd (TypeDefinition.isBuiltin_of_isRecord hisRecord)
      (TypeDefinition.mapRecord_outline d fun _ => rfl) ?_ ?_
    · intro base hbase
      rw [TypeDefinition.mapRecord_base] at hbase
      exact hwf.suitable_base hd hbase
    · intro field hfield
      rw [TypeDefinition.fields_mapRecord (fun _ => rfl) hisRecord, ← ownFields_of_get? hd] at hfield
      exact hlegal field hfield
  · intro handle hextends
    obtain ⟨above, below, hold, hnew⟩ := hfields handle hextends
    rw [allFieldNames, hnew]
    exact hnames handle above below hextends hold
  · intro handle hextends field hfield
    obtain ⟨above, below, hold, hnew⟩ := hfields handle hextends
    rw [hnew] at hfield
    simp only [List.mem_append] at hfield
    rcases hfield with (habove | hmem) | hbelow
    · exact Or.inl ⟨field, by simp [hold, habove], rfl⟩
    · rcases htypes field hmem with ⟨old, hin, hsame⟩ | havoids
      · exact Or.inl ⟨old, by simp [hold, hin], hsame⟩
      · exact Or.inr havoids
    · exact Or.inl ⟨field, by simp [hold, hbelow], rfl⟩
  · exact hwf.typeNames_modify fun _ => TypeDefinition.mapRecord_name _ _

theorem WellFormed.names_split (hwf : registry.WellFormed) {above own below : List Field}
    (hsplit : registry.allFields handle = above ++ own ++ below) :
    ((above ++ own ++ below).map Field.name).Nodup := by
  have h := hwf.names handle
  rwa [allFieldNames, hsplit] at h

/-- Own fields may be left out and take other places. -/
theorem WellFormed.modifyFields_of_subperm (hwf : registry.WellFormed)
    {g : List Field → List Field} (hrecord : registry.IsRecord record)
    (hg : (g (registry.ownFields record)).Subperm (registry.ownFields record)) :
    (registry.modifyFields record g).WellFormed := by
  refine hwf.modifyFields g hrecord ?_ ?_ ?_
  · intro field hfield
    exact hwf.fields record field (hg.subset hfield)
  · intro field hfield
    exact Or.inl ⟨field, hg.subset hfield, rfl⟩
  · intro handle above below _ hsplit
    have hwhole := hwf.names_split hsplit
    have hsub : (above ++ g (registry.ownFields record) ++ below).Subperm
        (above ++ registry.ownFields record ++ below) :=
      (List.subperm_append_right below).mpr ((List.subperm_append_left above).mpr hg)
    obtain ⟨reordered, hperm, hsublist⟩ := hsub
    exact (hperm.map Field.name).nodup_iff.mp (hwhole.sublist (hsublist.map Field.name))

/-- Own fields may get other flags, and other types that are legal and avoid the record. -/
theorem WellFormed.modifyFields_of_names (hwf : registry.WellFormed)
    {g : List Field → List Field} (hrecord : registry.IsRecord record)
    (hg : (g (registry.ownFields record)).map Field.name =
      (registry.ownFields record).map Field.name)
    (hlegal : ∀ field ∈ g (registry.ownFields record), registry.Legal field.type)
    (htypes : ∀ field ∈ g (registry.ownFields record),
      (∃ old ∈ registry.ownFields record, old.type = field.type) ∨
        registry.Avoids record field.type) :
    (registry.modifyFields record g).WellFormed := by
  refine hwf.modifyFields g hrecord hlegal htypes fun handle above below _ hsplit => ?_
  have hwhole := hwf.names_split hsplit
  rw [List.map_append, List.map_append] at hwhole ⊢
  rw [hg]
  exact hwhole

/-! ## Other changes of a definition -/

/-- A record may get other flags. -/
theorem WellFormed.modifyRecord_flags (hwf : registry.WellFormed) (flags : RecordFlags)
    (hrecord : registry.IsRecord record) :
    (registry.modifyRecord record fun own => { own with flags := flags }).WellFormed := by
  obtain ⟨d, hd, hisRecord⟩ := hrecord
  have hfields : ∀ definition : TypeDefinition,
      (definition.mapRecord fun own => { own with flags := flags }).fields = definition.fields := by
    rintro ⟨name, base, parameters, body⟩
    cases body <;> rfl
  refine hwf.of_same_fields ?_ ?_ ?_ ?_
  · refine hwf.toFormed.modify hd (TypeDefinition.isBuiltin_of_isRecord hisRecord)
      (TypeDefinition.mapRecord_outline d fun _ => rfl) ?_ ?_
    · intro base hbase
      rw [TypeDefinition.mapRecord_base] at hbase
      exact hwf.suitable_base hd hbase
    · intro field hfield
      rw [hfields, ← ownFields_of_get? hd] at hfield
      exact hwf.fields record field hfield
  · exact baseOf?_modify fun _ => TypeDefinition.mapRecord_base _ _
  · exact ownFields_modify hfields
  · exact hwf.typeNames_modify fun _ => TypeDefinition.mapRecord_name _ _

/-- An enumeration may get other enumerators. -/
theorem WellFormed.modifyEnumerators (hwf : registry.WellFormed)
    (g : List Enumerator → List Enumerator) (hfound : registry.get? handle = some definition)
    (huser : definition.isBuiltin = false) :
    (registry.modifyEnumerators handle g).WellFormed := by
  refine hwf.of_same_fields ?_ ?_ ?_ ?_
  · refine hwf.toFormed.modify hfound huser (TypeDefinition.mapEnumerators_outline _ _) ?_ ?_
    · intro base hbase
      rw [TypeDefinition.mapEnumerators_base] at hbase
      exact hwf.suitable_base hfound hbase
    · intro field hfield
      rw [TypeDefinition.mapEnumerators_fields, ← ownFields_of_get? hfound] at hfield
      exact hwf.fields handle field hfield
  · exact baseOf?_modify fun _ => TypeDefinition.mapEnumerators_base _ _
  · exact ownFields_modify fun _ => TypeDefinition.mapEnumerators_fields _ _
  · exact hwf.typeNames_modify fun _ => TypeDefinition.mapEnumerators_name _ _

/-- A type is found under its name, and the names of other types are not found. -/
theorem resolve?_eq_none {name : String} :
    registry.resolve? name = none ↔
      ∀ handle definition, registry.get? handle = some definition → definition.name ≠ name := by
  rw [resolve?, List.find?_eq_none]
  constructor
  · intro h handle definition hfound hname
    refine h handle (mem_handles.mpr (isLive_of_get? hfound)) ?_
    simp [hfound, hname]
  · intro h handle hmem
    obtain ⟨definition, hfound⟩ := isLive_iff.mp (mem_handles.mp hmem)
    simpa [hfound] using h handle definition hfound

theorem exists_of_resolve? {name : String} (h : registry.resolve? name = some handle) :
    ∃ definition, registry.get? handle = some definition ∧ definition.name = name := by
  have hfound := List.find?_some h
  cases hdefinition : registry.get? handle with
  | none => simp [hdefinition] at hfound
  | some definition => exact ⟨definition, rfl, by simpa [hdefinition] using hfound⟩

theorem WellFormed.resolve?_eq_some (hwf : registry.WellFormed) {name : String} :
    registry.resolve? name = some handle ↔
      ∃ definition, registry.get? handle = some definition ∧ definition.name = name := by
  constructor
  · exact exists_of_resolve?
  · rintro ⟨definition, hfound, hname⟩
    cases hresolved : registry.resolve? name with
    | none => exact absurd hname (resolve?_eq_none.mp hresolved handle definition hfound)
    | some other =>
        obtain ⟨d, hd, hname'⟩ := exists_of_resolve? hresolved
        rw [hwf.typeNames other handle d definition hd hfound (hname'.trans hname.symm)]

/-- A user type may get a name that no other type has. -/
theorem WellFormed.rename (hwf : registry.WellFormed) (name : String)
    (hfound : registry.get? handle = some definition)
    (huser : definition.isBuiltin = false)
    (hfree : ∀ existing, registry.resolve? name = some existing → existing = handle) :
    (registry.rename handle name).WellFormed := by
  refine hwf.of_same_fields ?_ ?_ ?_ ?_
  · exact hwf.toFormed.modify hfound huser rfl (fun base => hwf.suitable_base hfound)
      fun field hfield => hwf.fields handle field (by rwa [ownFields_of_get? hfound])
  · exact baseOf?_modify fun _ => rfl
  · exact ownFields_modify fun _ => rfl
  · -- a type other than the renamed one does not have the new name
    refine hwf.typeNames_of_free handle name fun place d hd => ?_
    by_cases hplace : place = handle
    · subst hplace
      rw [Registry.rename, get?_modify_self, hfound, Option.map_some, Option.some.injEq] at hd
      exact Or.inl ⟨rfl, by rw [← hd]⟩
    · rw [Registry.rename, get?_modify_of_ne _ hplace] at hd
      refine Or.inr ⟨hd, fun hname => hplace (hfree place ?_)⟩
      exact hwf.resolve?_eq_some.mpr ⟨d, hd, hname⟩

/-! ## New and deleted types -/

/-- A type without base and fields may be declared under a name that no type has. -/
theorem WellFormed.declare (hwf : registry.WellFormed) {added : TypeDefinition}
    (huser : added.isBuiltin = false) (hparameters : added.parameters = [])
    (hbase : added.base = none) (hfields : added.fields = [])
    (hfree : registry.resolve? added.name = none) :
    (registry.declare added).WellFormed := by
  refine hwf.of_same_fields (hwf.toFormed.declare huser hparameters hbase hfields)
    (baseOf?_declare hbase) (ownFields_declare hfields) ?_
  refine hwf.typeNames_of_free registry.nextHandle added.name fun place d hd => ?_
  rcases get?_declare_cases hd with ⟨hplace, rfl⟩ | hold
  · exact Or.inl ⟨hplace, rfl⟩
  · exact Or.inr ⟨hold, resolve?_eq_none.mp hfree place d hold⟩

/-- Nothing derives from a type that no other type refers to. -/
theorem WellFormed.eq_of_extends_unused (hwf : registry.WellFormed)
    (hunused : registry.Unused handle) {other : TypeHandle}
    (h : registry.Extends other handle) : other = handle := by
  rcases h.cases_tail with rfl | ⟨b, -, hstep⟩
  · rfl
  · obtain ⟨d, reference, hd, hbase, hhead⟩ := get?_of_baseOf? hstep
    by_cases hsame : b = handle
    · subst hsame
      exact absurd (.single hstep) (hwf.inheritance b)
    · have hfree := (hunused b d hsame hd).2 reference hbase
      have hmentions := TypeReference.mentions_head reference
      rw [hhead] at hmentions
      exact absurd (hmentions.symm.trans hfree) (by simp)

/-- A user type that no other type refers to may be deleted. -/
theorem WellFormed.remove (hwf : registry.WellFormed)
    (hfound : registry.get? handle = some definition)
    (huser : definition.isBuiltin = false) (hunused : registry.Unused handle) :
    (registry.remove handle).WellFormed := by
  have hgone : (registry.remove handle).get? handle = none := by
    rw [get?_remove, if_pos rfl]
  have hkept : ∀ other, other ≠ handle →
      (registry.remove handle).get? other = registry.get? other := fun other hne => by
    rw [get?_remove, if_neg hne]
  have hagree : AgreeApart registry (registry.remove handle) handle := by
    refine ⟨fun other hne => ?_, fun other hne => ?_⟩
    · rw [baseOf?, baseOf?, hkept other hne]
    · rw [ownFields_eq, ownFields_eq, hkept other hne]
  have hinheritance : Acyclic (registry.remove handle).DerivesFrom := by
    refine hwf.inheritance.mono fun a b hstep => ?_
    by_cases hsame : a = handle
    · subst hsame
      exact absurd ((baseOf?_of_none hgone).symm.trans hstep) (by simp)
    · exact (hagree.derivesFrom hsame).mp hstep
  have hfields : (registry.remove handle).allFields handle = [] := by
    rw [allFields_of_root hinheritance (baseOf?_of_none hgone), ownFields_of_none hgone]
  refine hwf.apart handle (hwf.toFormed.remove hfound huser hunused) hagree hinheritance ?_ ?_ ?_
  · intro other hextends
    rw [hwf.eq_of_extends_unused hunused hextends, allFieldNames, hfields]
    exact List.nodup_nil
  · intro other hextends field hfield
    rw [hwf.eq_of_extends_unused hunused hextends, hfields] at hfield
    exact absurd hfield List.not_mem_nil
  · intro a b first second hfirst hsecond hsame
    exact hwf.typeNames a b first second (get?_of_get?_remove hfirst).2
      (get?_of_get?_remove hsecond).2 hsame

end Registry
end LiveSchema
