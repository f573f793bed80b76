import LiveSchema.Proofs.Mutation.Registry
import LiveSchema.Proofs.Schema.NameIndex

/-!
# What mutations do to the names of types

Few mutations declare, rename or delete a type.  All others leave every type with its name, its kind
and its parameters.  So a deleted type never comes back, a live type keeps its kind, and the index of
names stays in step.
-/

namespace LiveSchema
namespace Registry

variable {before after registry : Registry} {handle : TypeHandle}

/-- Every type is there with the same name and outline. -/
structure SameFaces (before after : Registry) : Prop where
  size : after.definitions.size = before.definitions.size
  names : ∀ handle, (after.get? handle).map TypeDefinition.name =
    (before.get? handle).map TypeDefinition.name
  outlines : ∀ handle, after.outline? handle = before.outline? handle

theorem SameFaces.refl (registry : Registry) : SameFaces registry registry :=
  ⟨rfl, fun _ => rfl, fun _ => rfl⟩

theorem SameFaces.trans {between : Registry} (h : SameFaces before between)
    (hnext : SameFaces between after) : SameFaces before after :=
  ⟨hnext.size.trans h.size, fun handle => (hnext.names handle).trans (h.names handle),
    fun handle => (hnext.outlines handle).trans (h.outlines handle)⟩

theorem sameFaces_modify {f : TypeDefinition → TypeDefinition}
    (hname : ∀ definition, (f definition).name = definition.name)
    (houtline : ∀ definition, (f definition).outline = definition.outline)
    (registry : Registry) (handle : TypeHandle) : SameFaces registry (registry.modify handle f) := by
  refine ⟨size_modify registry handle f, fun other => ?_, fun other => ?_⟩
  · rw [get?_modify]
    split
    next hsame =>
        rw [hsame, Option.map_map]
        exact Option.map_congr fun definition _ => hname definition
    next => rfl
  · rw [outline?, outline?, get?_modify]
    split
    next hsame =>
        rw [hsame, Option.map_map]
        exact Option.map_congr fun definition _ => houtline definition
    next => rfl

theorem sameFaces_modifyRecord {f : Record → Record} (hkind : ∀ own, (f own).kind = own.kind)
    (registry : Registry) (handle : TypeHandle) :
    SameFaces registry (registry.modifyRecord handle f) :=
  sameFaces_modify (fun definition => definition.mapRecord_name f)
    (fun definition => definition.mapRecord_outline hkind) registry handle

theorem sameFaces_modifyFields (f : List Field → List Field) (registry : Registry)
    (handle : TypeHandle) : SameFaces registry (registry.modifyFields handle f) := by
  refine sameFaces_modifyRecord ?_ registry handle
  exact fun _ => rfl

theorem sameFaces_modifyEnumerators (f : List Enumerator → List Enumerator) (registry : Registry)
    (handle : TypeHandle) : SameFaces registry (registry.modifyEnumerators handle f) :=
  sameFaces_modify (fun definition => definition.mapEnumerators_name f)
    (fun definition => definition.mapEnumerators_outline f) registry handle

theorem sameFaces_setBase (base : Option TypeReference) (registry : Registry)
    (handle : TypeHandle) : SameFaces registry (registry.setBase handle base) := by
  refine sameFaces_modify ?_ ?_ registry handle
  · exact fun _ => rfl
  · exact fun _ => rfl

/-- One registry follows another by a change of names. -/
def Follows (before after : Registry) : NameChange → Prop
  | .kept => SameFaces before after
  | .declared definition =>
    before.resolve? definition.name = none ∧ after = before.declare definition
  | .renamed handle name =>
    (∃ definition, before.get? handle = some definition) ∧
      (∀ existing, before.resolve? name = some existing → existing = handle) ∧
      after = before.rename handle name
  | .removed handle => after = before.remove handle

/-- Transitions that say that they keep all names do so, and the others change the one that they say. -/
theorem Transition.follows {change : NameChange} (h : before.Transition change after) :
    before.Follows after change := by
  cases h with
  | same => exact .refl before
  | declaredRecord kind _ hfree => exact ⟨hfree, rfl⟩
  | declaredEnumeration _ hfree => exact ⟨hfree, rfl⟩
  | renamed hfound _ _ hfree => exact ⟨⟨_, hfound⟩, hfree, rfl⟩
  | removed => exact (rfl : _ = _)
  | rebased => exact sameFaces_setBase _ before _
  | flagged =>
      refine sameFaces_modifyRecord ?_ before _
      exact fun _ => rfl
  | reshaped => exact sameFaces_modifyFields _ before _
  | @moved source target =>
      exact (sameFaces_modifyFields _ before source).trans (sameFaces_modifyFields _ _ target)
  | @flattened record =>
      exact (sameFaces_modifyFields _ before record).trans (sameFaces_setBase _ _ record)
  | enumerated => exact sameFaces_modifyEnumerators _ before _

theorem Follows.indexes {change : NameChange} (h : Follows before after change)
    (hwf : before.WellFormed) {index : NameIndex} (hindex : index.Indexes before) :
    (index.follow before.nextHandle change).Indexes after := by
  cases change with
  | kept => exact hindex.congr h.names
  | declared definition =>
      obtain ⟨hfree, rfl⟩ := h
      exact hindex.declare hfree
  | renamed handle name =>
      obtain ⟨⟨definition, hfound⟩, hfree, rfl⟩ := h
      exact hindex.rename hwf hfound hfree
  | removed handle =>
      obtain rfl : after = before.remove handle := h
      exact hindex.remove handle

/-- The places of types are never taken away. -/
theorem Follows.size_le {change : NameChange} (h : Follows before after change) :
    before.definitions.size ≤ after.definitions.size := by
  cases change with
  | kept => exact Nat.le_of_eq h.size.symm
  | declared definition =>
      obtain ⟨-, rfl⟩ := h
      simp
  | renamed handle name =>
      obtain ⟨-, -, rfl⟩ := h
      exact Nat.le_of_eq (size_modify before handle _).symm
  | removed handle =>
      obtain rfl : after = before.remove handle := h
      simp

/-- A live type stays live unless it is removed. -/
theorem Follows.exists_get? {change : NameChange} (h : Follows before after change)
    {first : TypeDefinition} (hfirst : before.get? handle = some first)
    (hstays : change ≠ .removed handle) : ∃ second, after.get? handle = some second := by
  cases change with
  | kept =>
      have hname := h.names handle
      rw [hfirst, Option.map_some, Option.map_eq_some_iff] at hname
      obtain ⟨second, hsecond, -⟩ := hname
      exact ⟨second, hsecond⟩
  | declared definition =>
      obtain ⟨-, rfl⟩ := h
      rw [get?_declare]
      split
      next => exact ⟨definition, rfl⟩
      next => exact ⟨first, hfirst⟩
  | renamed renamed name =>
      obtain ⟨-, -, rfl⟩ := h
      rw [rename, get?_modify]
      split
      next hsame => exact ⟨_, by rw [← hsame, hfirst]; rfl⟩
      next => exact ⟨first, hfirst⟩
  | removed removed =>
      obtain rfl : after = before.remove removed := h
      rw [get?_remove, if_neg fun hsame => hstays (congrArg NameChange.removed hsame.symm)]
      exact ⟨first, hfirst⟩

/-- A type that is live before and after looks the same to references. -/
theorem Follows.outline?_eq {change : NameChange} (h : Follows before after change)
    {first second : TypeDefinition} (hfirst : before.get? handle = some first)
    (hsecond : after.get? handle = some second) :
    after.outline? handle = before.outline? handle := by
  cases change with
  | kept => exact h.outlines handle
  | declared definition =>
      obtain ⟨-, rfl⟩ := h
      rw [outline?, outline?, get?_declare, if_neg (ne_nextHandle_of_get? hfirst)]
  | renamed renamed name =>
      obtain ⟨-, -, rfl⟩ := h
      rw [outline?, outline?, rename, get?_modify]
      split
      next hsame =>
          rw [hsame, Option.map_map]
          rfl
      next => rfl
  | removed removed =>
      obtain rfl : after = before.remove removed := h
      exact outline?_remove (get?_of_get?_remove hsecond).1

/-- An empty place stays empty. -/
theorem Follows.get?_eq_none {change : NameChange} (h : Follows before after change)
    (hplace : handle.index < before.definitions.size) (hgone : before.get? handle = none) :
    after.get? handle = none := by
  cases change with
  | kept =>
      have hname := h.names handle
      rw [hgone] at hname
      simpa using hname
  | declared definition =>
      obtain ⟨-, rfl⟩ := h
      have hne : handle ≠ before.nextHandle := by
        rintro rfl
        simp [nextHandle] at hplace
      rw [get?_declare, if_neg hne, hgone]
  | renamed renamed name =>
      obtain ⟨-, -, rfl⟩ := h
      rw [rename, get?_modify]
      split
      next hsame => rw [← hsame, hgone, Option.map_none]
      next => exact hgone
  | removed removed =>
      obtain rfl : after = before.remove removed := h
      rw [get?_remove, hgone, ite_self]

end Registry

namespace Mutation

open Registry

theorem eq_deleteType_of_nameChange {registry : Registry} {mutation : Mutation}
    {handle : TypeHandle} (h : mutation.nameChange registry = .removed handle) :
    mutation = .deleteType handle := by
  cases mutation with
  | deleteType type =>
      obtain rfl := NameChange.removed.inj h
      rfl
  | _ => exact absurd h (by simp [nameChange])

theorem follows_carryOut {content : Content} {mutation : Mutation} {change : Change}
    (h : mutation.carryOut content = .ok change) :
    content.registry.Follows change.content.registry (mutation.nameChange content.registry) :=
  (transition_carryOut h).follows

end Mutation
end LiveSchema
