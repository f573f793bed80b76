import LiveSchema.Schema.Hierarchy
import Mathlib.Data.List.Nodup
import Mathlib.Tactic.Common

/-!
# Looking up types

What `Registry.get?` finds after each change of a registry, and the three views through which the rest
of the library sees a definition: its outline, its base type and its own fields.
-/

namespace LiveSchema

/-- What a reference to a type depends on. -/
structure Outline where
  parameters : List TemplateParameter
  variant : TypeVariant
  builtin : Option Builtin

namespace TypeDefinition

/-- The outline of a definition. -/
def outline (definition : TypeDefinition) : Outline :=
  ⟨definition.parameters, definition.variant, definition.builtin?⟩

/-- The fields that a definition declares. -/
def fields (definition : TypeDefinition) : List Field :=
  match definition.body with
  | .record record => record.fields
  | _ => []

theorem isRecord_iff {definition : TypeDefinition} :
    definition.isRecord = true ↔ ∃ record, definition.body = .record record := by
  obtain ⟨name, base, parameters, body⟩ := definition
  cases body <;> simp [isRecord, record?]

theorem record?_eq_some {definition : TypeDefinition} {record : Record} :
    definition.record? = some record ↔ definition.body = .record record := by
  unfold record?
  cases definition.body <;> simp

theorem isBuiltin_iff {definition : TypeDefinition} :
    definition.isBuiltin = true ↔ ∃ builtin, definition.body = .builtin builtin := by
  obtain ⟨name, base, parameters, body⟩ := definition
  cases body <;> simp [isBuiltin, builtin?]

@[simp] theorem isBuiltin_ofBuiltin (builtin : Builtin) : (ofBuiltin builtin).isBuiltin = true :=
  rfl

@[simp] theorem isRecord_ofBuiltin (builtin : Builtin) : (ofBuiltin builtin).isRecord = false :=
  rfl

theorem isBuiltin_of_builtin {definition : TypeDefinition} {builtin : Builtin}
    (h : definition.body = .builtin builtin) : definition.isBuiltin = true :=
  isBuiltin_iff.mpr ⟨builtin, h⟩

theorem isBuiltin_of_enumeration {definition : TypeDefinition} {enumeration : Enumeration}
    (h : definition.body = .enumeration enumeration) : definition.isBuiltin = false := by
  simp [isBuiltin, builtin?, h]

theorem isBuiltin_of_record {definition : TypeDefinition} {record : Record}
    (h : definition.body = .record record) : definition.isBuiltin = false := by
  simp [isBuiltin, builtin?, h]

theorem isRecord_eq_of_variant {a b : TypeDefinition} (h : a.variant = b.variant) :
    a.isRecord = b.isRecord := by
  obtain ⟨aname, abase, aparameters, abody⟩ := a
  obtain ⟨bname, bbase, bparameters, bbody⟩ := b
  cases abody with
  | builtin _ =>
      cases bbody with
      | record record => cases hkind : record.kind <;> simp [variant, hkind] at h
      | _ => simp_all [variant, isRecord, record?]
  | enumeration _ =>
      cases bbody with
      | record record => cases hkind : record.kind <;> simp [variant, hkind] at h
      | _ => simp_all [variant, isRecord, record?]
  | record record =>
      cases bbody with
      | record _ => rfl
      | _ => cases hkind : record.kind <;> simp [variant, hkind] at h

@[simp] theorem mapRecord_name (definition : TypeDefinition) (f : Record → Record) :
    (definition.mapRecord f).name = definition.name := by
  unfold mapRecord
  split <;> rfl

@[simp] theorem mapRecord_base (definition : TypeDefinition) (f : Record → Record) :
    (definition.mapRecord f).base = definition.base := by
  unfold mapRecord
  split <;> rfl

@[simp] theorem mapRecord_parameters (definition : TypeDefinition) (f : Record → Record) :
    (definition.mapRecord f).parameters = definition.parameters := by
  unfold mapRecord
  split <;> rfl

theorem mapRecord_outline (definition : TypeDefinition) {f : Record → Record}
    (hkind : ∀ record, (f record).kind = record.kind) :
    (definition.mapRecord f).outline = definition.outline := by
  obtain ⟨name, base, parameters, body⟩ := definition
  cases body <;> simp [mapRecord, outline, variant, builtin?, hkind]

@[simp] theorem mapEnumerators_name (definition : TypeDefinition)
    (f : List Enumerator → List Enumerator) :
    (definition.mapEnumerators f).name = definition.name := by
  unfold mapEnumerators
  split <;> rfl

@[simp] theorem mapEnumerators_base (definition : TypeDefinition)
    (f : List Enumerator → List Enumerator) :
    (definition.mapEnumerators f).base = definition.base := by
  unfold mapEnumerators
  split <;> rfl

@[simp] theorem mapEnumerators_outline (definition : TypeDefinition)
    (f : List Enumerator → List Enumerator) :
    (definition.mapEnumerators f).outline = definition.outline := by
  obtain ⟨name, base, parameters, body⟩ := definition
  cases body <;> rfl

@[simp] theorem mapEnumerators_fields (definition : TypeDefinition)
    (f : List Enumerator → List Enumerator) :
    (definition.mapEnumerators f).fields = definition.fields := by
  obtain ⟨name, base, parameters, body⟩ := definition
  cases body <;> rfl

end TypeDefinition

namespace Registry

variable {registry : Registry} {handle other : TypeHandle} {definition : TypeDefinition}

/-! ## Finding definitions -/

theorem get?_eq_join (registry : Registry) (handle : TypeHandle) :
    registry.get? handle = registry.definitions[handle.index]?.join := by
  unfold get?
  split
  next found => simp [found]
  next hnone =>
      cases hfound : registry.definitions[handle.index]? with
      | none => rfl
      | some place =>
          cases place with
          | none => rfl
          | some definition => exact absurd hfound (hnone definition)

theorem index_lt_of_get? (h : registry.get? handle = some definition) :
    handle.index < registry.definitions.size := by
  rw [get?_eq_join] at h
  by_contra hout
  rw [Array.getElem?_eq_none (Nat.le_of_not_lt hout)] at h
  exact absurd h (by simp)

theorem isLive_iff : registry.isLive handle = true ↔ ∃ d, registry.get? handle = some d := by
  rw [isLive, Option.isSome_iff_exists]

/-- The handles of live types are listed once each. -/
theorem nodup_handles (registry : Registry) : registry.handles.Nodup := by
  unfold handles
  refine List.Nodup.filter _ (List.Nodup.map ?_ List.nodup_range)
  intro a b h
  exact TypeHandle.mk.inj h

theorem length_handles_le (registry : Registry) :
    registry.handles.length ≤ registry.definitions.size := by
  unfold handles
  calc
    _ ≤ ((List.range registry.definitions.size).map TypeHandle.mk).length :=
      List.length_filter_le _ _
    _ = registry.definitions.size := by simp

theorem get?_ext {registry other : Registry}
    (h : registry.definitions = other.definitions) : registry = other := by
  cases registry
  cases other
  cases h
  rfl

/-! ## Finding definitions after a change -/

@[simp] theorem size_modify (registry : Registry) (handle : TypeHandle)
    (f : TypeDefinition → TypeDefinition) :
    (registry.modify handle f).definitions.size = registry.definitions.size := by
  unfold modify
  split <;> simp

theorem get?_modify (registry : Registry) (handle other : TypeHandle)
    (f : TypeDefinition → TypeDefinition) :
    (registry.modify handle f).get? other =
      if other = handle then (registry.get? handle).map f else registry.get? other := by
  unfold modify
  cases hfound : registry.get? handle with
  | none =>
      by_cases hsame : other = handle
      · simp [hsame, hfound]
      · simp [hsame]
  | some definition =>
      have hbound := index_lt_of_get? hfound
      by_cases hsame : other = handle
      · subst hsame
        simp [get?_eq_join, hbound]
      · have hindex : handle.index ≠ other.index := by
          intro h
          cases handle
          cases other
          exact hsame (congrArg TypeHandle.mk h.symm)
        simp [get?_eq_join, hindex, hsame]

theorem get?_modify_self (registry : Registry) (handle : TypeHandle)
    (f : TypeDefinition → TypeDefinition) :
    (registry.modify handle f).get? handle = (registry.get? handle).map f := by
  rw [get?_modify, if_pos rfl]

theorem get?_modify_of_ne (f : TypeDefinition → TypeDefinition) (h : other ≠ handle) :
    (registry.modify handle f).get? other = registry.get? other := by
  rw [get?_modify, if_neg h]

theorem get?_modify_cases {f : TypeDefinition → TypeDefinition}
    (h : (registry.modify handle f).get? other = some definition) :
    (∃ old, other = handle ∧ registry.get? handle = some old ∧ definition = f old) ∨
      registry.get? other = some definition := by
  rw [get?_modify] at h
  split at h
  next hsame =>
      obtain ⟨old, hold, rfl⟩ := Option.map_eq_some_iff.mp h
      exact Or.inl ⟨old, hsame, hold, rfl⟩
  next => exact Or.inr h

@[simp] theorem size_declare (registry : Registry) (definition : TypeDefinition) :
    (registry.declare definition).definitions.size = registry.definitions.size + 1 := by
  simp [declare]

theorem get?_nextHandle (registry : Registry) :
    registry.get? registry.nextHandle = none := by
  simp [get?_eq_join, nextHandle]

theorem ne_nextHandle_of_get? (h : registry.get? handle = some definition) :
    handle ≠ registry.nextHandle := by
  rintro rfl
  exact absurd (h.symm.trans (get?_nextHandle registry)) (by simp)

theorem get?_declare (registry : Registry) (definition : TypeDefinition) (other : TypeHandle) :
    (registry.declare definition).get? other =
      if other = registry.nextHandle then some definition else registry.get? other := by
  by_cases hsame : other = registry.nextHandle
  · subst hsame
    simp [get?_eq_join, declare, nextHandle]
  · have hindex : other.index ≠ registry.definitions.size := by
      intro h
      cases other
      exact hsame (congrArg TypeHandle.mk h)
    simp [get?_eq_join, declare, hsame, Array.getElem?_push, hindex]

theorem get?_declare_cases {added : TypeDefinition}
    (h : (registry.declare added).get? handle = some definition) :
    handle = registry.nextHandle ∧ definition = added ∨
      registry.get? handle = some definition := by
  rw [get?_declare] at h
  split at h
  next hsame => exact Or.inl ⟨hsame, (Option.some.inj h).symm⟩
  next => exact Or.inr h

@[simp] theorem size_remove (registry : Registry) (handle : TypeHandle) :
    (registry.remove handle).definitions.size = registry.definitions.size := by
  simp [remove]

theorem get?_remove (registry : Registry) (handle other : TypeHandle) :
    (registry.remove handle).get? other =
      if other = handle then none else registry.get? other := by
  by_cases hsame : other = handle
  · subst hsame
    by_cases hbound : other.index < registry.definitions.size
    · simp [get?_eq_join, remove, hbound]
    · simp [get?_eq_join, remove, hbound]
  · have hindex : handle.index ≠ other.index := by
      intro h
      cases handle
      cases other
      exact hsame (congrArg TypeHandle.mk h.symm)
    simp [get?_eq_join, remove, hindex, hsame]

theorem get?_of_get?_remove (h : (registry.remove handle).get? other = some definition) :
    other ≠ handle ∧ registry.get? other = some definition := by
  rw [get?_remove] at h
  split at h
  next => exact absurd h (by simp)
  next hne => exact ⟨hne, h⟩

/-- Two changes of one definition are one change. -/
theorem modify_modify (registry : Registry) (handle : TypeHandle)
    (f g : TypeDefinition → TypeDefinition) :
    (registry.modify handle f).modify handle g =
      registry.modify handle fun definition => g (f definition) := by
  cases hfound : registry.get? handle with
  | none => simp [modify, hfound]
  | some definition =>
      have hbetween : (registry.modify handle f).get? handle = some (f definition) := by
        rw [get?_modify_self, hfound]
        rfl
      apply get?_ext
      rw [modify, hbetween]
      simp [modify, hfound]

/-! ## Views -/

/-- What references to a type depend on. -/
def outline? (registry : Registry) (handle : TypeHandle) : Option Outline :=
  (registry.get? handle).map TypeDefinition.outline

theorem ownFields_eq (registry : Registry) (handle : TypeHandle) :
    registry.ownFields handle =
      ((registry.get? handle).map TypeDefinition.fields).getD [] := by
  unfold ownFields record?
  cases registry.get? handle with
  | none => rfl
  | some definition =>
      obtain ⟨name, base, parameters, body⟩ := definition
      cases body <;> rfl

theorem nameOf_of_get? (h : registry.get? handle = some definition) :
    registry.nameOf handle = definition.name := by
  rw [nameOf, h]

/-- Changes of definitions that keep the name keep all names. -/
theorem nameOf_modify {f : TypeDefinition → TypeDefinition}
    (hname : ∀ definition, (f definition).name = definition.name) (handle other : TypeHandle) :
    (registry.modify handle f).nameOf other = registry.nameOf other := by
  unfold nameOf
  by_cases hsame : other = handle
  · subst hsame
    rw [get?_modify_self]
    cases registry.get? other with
    | none => rfl
    | some definition => exact hname definition
  · rw [get?_modify_of_ne f hsame]

@[simp] theorem nameOf_modifyRecord (f : Record → Record) (handle other : TypeHandle) :
    (registry.modifyRecord handle f).nameOf other = registry.nameOf other :=
  nameOf_modify (fun definition => definition.mapRecord_name f) handle other

@[simp] theorem nameOf_modifyFields (f : List Field → List Field) (handle other : TypeHandle) :
    (registry.modifyFields handle f).nameOf other = registry.nameOf other :=
  nameOf_modifyRecord _ handle other

@[simp] theorem nameOf_modifyEnumerators (f : List Enumerator → List Enumerator)
    (handle other : TypeHandle) :
    (registry.modifyEnumerators handle f).nameOf other = registry.nameOf other :=
  nameOf_modify (fun definition => definition.mapEnumerators_name f) handle other

@[simp] theorem nameOf_setBase (base : Option TypeReference) (handle other : TypeHandle) :
    (registry.setBase handle base).nameOf other = registry.nameOf other := by
  refine nameOf_modify ?_ handle other
  exact fun _ => rfl

theorem ownFields_of_get? (h : registry.get? handle = some definition) :
    registry.ownFields handle = definition.fields := by
  rw [ownFields_eq, h]
  rfl

theorem baseOf?_of_get? (h : registry.get? handle = some definition) :
    registry.baseOf? handle = definition.base.map TypeReference.handle := by
  simp [baseOf?, h]

theorem baseOf?_of_none (h : registry.get? handle = none) :
    registry.baseOf? handle = none := by
  simp [baseOf?, h]

theorem ownFields_of_none (h : registry.get? handle = none) :
    registry.ownFields handle = [] := by
  simp [ownFields_eq, h]

/-- A type that declares a field is a live record. -/
theorem get?_of_mem_ownFields {field : Field} (h : field ∈ registry.ownFields handle) :
    ∃ d, registry.get? handle = some d ∧ d.isRecord = true ∧ field ∈ d.fields := by
  cases hfound : registry.get? handle with
  | none => simp [ownFields_of_none hfound] at h
  | some definition =>
      rw [ownFields_of_get? hfound] at h
      refine ⟨definition, rfl, ?_, h⟩
      unfold TypeDefinition.fields at h
      split at h
      next record hbody => simp [TypeDefinition.isRecord, TypeDefinition.record?, hbody]
      next => exact absurd h List.not_mem_nil

/-- A type that has a base type is live. -/
theorem get?_of_baseOf? {base : TypeHandle} (h : registry.baseOf? handle = some base) :
    ∃ d reference, registry.get? handle = some d ∧ d.base = some reference ∧
      reference.handle = base := by
  simp only [baseOf?, Option.map_eq_some_iff, Option.bind_eq_some_iff] at h
  obtain ⟨reference, ⟨d, hd, hbase⟩, rfl⟩ := h
  exact ⟨d, reference, hd, hbase, rfl⟩

/-- The type has the reference as its base type or as the type of one of its own fields. -/
inductive Refers (registry : Registry) (handle : TypeHandle) : TypeReference → Prop
  | base {definition : TypeDefinition} {base : TypeReference}
      (hfound : registry.get? handle = some definition) (hbase : definition.base = some base) :
      Refers registry handle base
  | field {field : Field} (hfield : field ∈ registry.ownFields handle) :
      Refers registry handle field.type

theorem Refers.congr {other : Registry} {reference : TypeReference}
    (hsame : other.get? handle = registry.get? handle) (h : registry.Refers handle reference) :
    other.Refers handle reference := by
  cases h with
  | base hfound hbase => exact .base (hsame.trans hfound) hbase
  | field hfield =>
      refine .field ?_
      rwa [ownFields_eq, hsame, ← ownFields_eq]

end Registry
end LiveSchema
