import LiveSchema.Mutation.Enumerators
import LiveSchema.Proofs.Schema.Edits
import LiveSchema.Proofs.Schema.FieldNames

/-!
# Legal names

Every name that a definition brings has passed the check for identifiers, and no two enumerators of an
enumeration share a name.  A change of one definition has to respect this for the names that are new;
the names that the registry makes up itself are legal and free.
-/

namespace LiveSchema
namespace TypeDefinition

variable {definition : TypeDefinition}

/-- The enumerators of an enumeration; other types have none. -/
def enumerators (definition : TypeDefinition) : List Enumerator :=
  match definition.body with
  | .enumeration enumeration => enumeration.enumerators
  | _ => []

/-- The names in a definition are legal, its own apart if it is built in, and no two enumerators share
one. -/
structure WellNamed (definition : TypeDefinition) : Prop where
  own : definition.isBuiltin = false → Legality.IsIdentifier definition.name
  fields : ∀ name ∈ definition.fields.map Field.name, Legality.IsIdentifier name
  enumerators : ∀ name ∈ definition.enumerators.map Enumerator.name, Legality.IsIdentifier name
  distinct : (definition.enumerators.map Enumerator.name).Nodup

theorem wellNamed_ofBuiltin (builtin : Builtin) : (ofBuiltin builtin).WellNamed where
  own huser := absurd huser (by simp)
  fields := by simp [TypeDefinition.fields, ofBuiltin]
  enumerators := by simp [TypeDefinition.enumerators, ofBuiltin]
  distinct := by simp [TypeDefinition.enumerators, ofBuiltin]

theorem wellNamed_newRecord (kind : RecordKind) {name : String} (hname : Legality.IsIdentifier name) :
    (newRecord kind name).WellNamed where
  own _ := hname
  fields := by simp [TypeDefinition.fields, newRecord]
  enumerators := by simp [TypeDefinition.enumerators, newRecord]
  distinct := by simp [TypeDefinition.enumerators, newRecord]

theorem wellNamed_newEnumeration {name : String} (hname : Legality.IsIdentifier name) :
    (newEnumeration name).WellNamed where
  own _ := hname
  fields := by simp [TypeDefinition.fields, newEnumeration]
  enumerators := by simp [TypeDefinition.enumerators, newEnumeration]
  distinct := by simp [TypeDefinition.enumerators, newEnumeration]

/-- A change of a record brings fields whose names were there or are legal. -/
theorem WellNamed.mapRecord (h : definition.WellNamed) {f : Record → Record}
    (hf : ∀ record, definition.body = .record record → ∀ name ∈ (f record).fields.map Field.name,
      name ∈ record.fields.map Field.name ∨ Legality.IsIdentifier name) :
    (definition.mapRecord f).WellNamed := by
  unfold TypeDefinition.mapRecord
  split
  next record hbody =>
      have hown : definition.fields = record.fields := by simp [TypeDefinition.fields, hbody]
      refine ⟨fun _ => h.own (isBuiltin_of_record hbody), fun name hname => ?_, ?_, ?_⟩
      · rcases hf record hbody name hname with hold | hlegal
        · exact h.fields name (hown ▸ hold)
        · exact hlegal
      · simp [TypeDefinition.enumerators]
      · simp [TypeDefinition.enumerators]
  next => exact h

/-- A change of an enumeration brings distinct names that were there or are legal. -/
theorem WellNamed.mapEnumerators (h : definition.WellNamed)
    {g : List Enumerator → List Enumerator}
    (hlegal : ∀ name ∈ (g definition.enumerators).map Enumerator.name,
      name ∈ definition.enumerators.map Enumerator.name ∨ Legality.IsIdentifier name)
    (hdistinct : ((g definition.enumerators).map Enumerator.name).Nodup) :
    (definition.mapEnumerators g).WellNamed := by
  unfold TypeDefinition.mapEnumerators
  split
  next enumeration hbody =>
      have hown : definition.enumerators = enumeration.enumerators := by
        simp [TypeDefinition.enumerators, hbody]
      rw [hown] at hlegal hdistinct
      refine ⟨fun _ => h.own (isBuiltin_of_enumeration hbody), ?_, fun name hname => ?_, hdistinct⟩
      · simp [TypeDefinition.fields]
      · rcases hlegal name hname with hold | hnew
        · exact h.enumerators name (hown ▸ hold)
        · exact hnew
  next => exact h

end TypeDefinition

namespace Registry

variable {registry : Registry} {handle record : TypeHandle} {definition : TypeDefinition}

/-- Every live type is well-named. -/
def WellNamed (registry : Registry) : Prop :=
  ∀ handle definition, registry.get? handle = some definition → definition.WellNamed

theorem wellNamed_initial : initial.WellNamed := by
  intro handle definition hfound
  rw [get?_initial, Option.map_eq_some_iff] at hfound
  obtain ⟨builtin, -, rfl⟩ := hfound
  exact TypeDefinition.wellNamed_ofBuiltin builtin

theorem WellNamed.ownFields (h : registry.WellNamed) {name : String}
    (hname : name ∈ (registry.ownFields record).map Field.name) : Legality.IsIdentifier name := by
  cases hfound : registry.get? record with
  | none => simp [ownFields_of_none hfound] at hname
  | some definition =>
      rw [ownFields_of_get? hfound] at hname
      exact (h record definition hfound).fields name hname

theorem WellNamed.distinct (h : registry.WellNamed) {enumeration : Enumeration}
    (hfound : registry.get? handle = some definition)
    (hbody : definition.body = .enumeration enumeration) :
    (enumeration.enumerators.map Enumerator.name).Nodup := by
  simpa [TypeDefinition.enumerators, hbody] using (h handle definition hfound).distinct

/-! ## Changes of one definition -/

theorem WellNamed.modify (h : registry.WellNamed) {f : TypeDefinition → TypeDefinition}
    (hf : ∀ definition, registry.get? handle = some definition → (f definition).WellNamed) :
    (registry.modify handle f).WellNamed :=
  Each.modify h hf

theorem WellNamed.declare (h : registry.WellNamed) {added : TypeDefinition}
    (hadded : added.WellNamed) : (registry.declare added).WellNamed :=
  Each.declare h hadded

theorem WellNamed.remove (h : registry.WellNamed) (handle : TypeHandle) :
    (registry.remove handle).WellNamed :=
  Each.remove h handle

theorem WellNamed.rename (h : registry.WellNamed) (handle : TypeHandle) {name : String}
    (hname : Legality.IsIdentifier name) : (registry.rename handle name).WellNamed :=
  h.modify fun definition hfound =>
    have hold := h handle definition hfound
    ⟨fun _ => hname, hold.fields, hold.enumerators, hold.distinct⟩

theorem WellNamed.setBase (h : registry.WellNamed) (base : Option TypeReference) :
    (registry.setBase record base).WellNamed :=
  h.modify fun definition hfound =>
    have hold := h record definition hfound
    ⟨hold.own, hold.fields, hold.enumerators, hold.distinct⟩

theorem WellNamed.modifyRecord_flags (h : registry.WellNamed) (flags : RecordFlags) :
    (registry.modifyRecord record fun own => { own with flags := flags }).WellNamed :=
  h.modify fun definition hfound =>
    (h record definition hfound).mapRecord fun _ _ _ hname => Or.inl hname

theorem WellNamed.modifyFields (h : registry.WellNamed) {g : List Field → List Field}
    (hg : ∀ name ∈ (g (registry.ownFields record)).map Field.name,
      name ∈ (registry.ownFields record).map Field.name ∨ Legality.IsIdentifier name) :
    (registry.modifyFields record g).WellNamed :=
  h.modify fun definition hfound =>
    (h record definition hfound).mapRecord fun own hbody => by
      have hown : registry.ownFields record = own.fields := by
        rw [ownFields_of_get? hfound, TypeDefinition.fields, hbody]
      rw [hown] at hg
      exact hg

theorem WellNamed.modifyEnumerators (h : registry.WellNamed) {g : List Enumerator → List Enumerator}
    {enumeration : Enumeration} (hfound : registry.get? handle = some definition)
    (hbody : definition.body = .enumeration enumeration)
    (hlegal : ∀ name ∈ (g enumeration.enumerators).map Enumerator.name,
      name ∈ enumeration.enumerators.map Enumerator.name ∨ Legality.IsIdentifier name)
    (hdistinct : ((g enumeration.enumerators).map Enumerator.name).Nodup) :
    (registry.modifyEnumerators handle g).WellNamed :=
  h.modify fun found hfound' => by
    obtain rfl := Option.some.inj (hfound.symm.trans hfound')
    have hown : definition.enumerators = enumeration.enumerators := by
      simp [TypeDefinition.enumerators, hbody]
    rw [← hown] at hlegal hdistinct
    exact (h handle definition hfound).mapEnumerators hlegal hdistinct

/-! ## Made-up names -/

/-- The search for the name of a new type ends. -/
theorem finds_freshTypeName (registry : Registry) (word : String) :
    Finds (fun name => (registry.resolve? name).isSome) word 1 (registry.freshTypeName word) := by
  refine finds_freshName (registry.handles.map registry.nameOf) (fun n _ htaken => ?_) ?_
  · obtain ⟨handle, hresolve⟩ := Option.isSome_iff_exists.mp htaken
    obtain ⟨definition, hfound, hname⟩ := exists_of_resolve? hresolve
    exact List.mem_map.mpr ⟨handle, mem_handles.mpr (isLive_of_get? hfound),
      (nameOf_of_get? hfound).trans hname⟩
  · rw [List.length_map]
    exact Nat.lt_succ_self _

theorem isIdentifier_freshTypeName (registry : Registry) {word : String}
    (hword : Legality.IsStem word) : Legality.IsIdentifier (registry.freshTypeName word) := by
  obtain ⟨n, -, hname⟩ := (registry.finds_freshTypeName word).exists_isLeast
  rw [hname]
  exact Legality.isIdentifier_numbered hword n

theorem isStem_struct : Legality.IsStem "Struct" :=
  ⟨'S', ['t', 'r', 'u', 'c', 't'], by decide, by decide, by decide, by decide⟩

theorem isStem_class : Legality.IsStem "Class" :=
  ⟨'C', ['l', 'a', 's', 's'], by decide, by decide, by decide, by decide⟩

theorem isStem_enum : Legality.IsStem "Enum" :=
  ⟨'E', ['n', 'u', 'm'], by decide, by decide, by decide, by decide⟩

theorem isStem_value : Legality.IsStem "Value" :=
  ⟨'V', ['a', 'l', 'u', 'e'], by decide, by decide, by decide, by decide⟩

/-- The search for the name of a new enumerator ends. -/
theorem finds_freshEnumeratorName {enumeration : Enumeration}
    (hfound : registry.get? handle = some definition)
    (hbody : definition.body = .enumeration enumeration) :
    Finds (fun name => (Legality.checkEnumeratorName registry handle none name).toBool = false)
      "Value" 1 (Content.freshEnumeratorName registry handle enumeration) := by
  refine finds_freshName_of_check isStem_value (enumeration.enumerators.map Enumerator.name)
    (fun name hidentifier hfree => ?_) (by simp)
  refine Legality.checkEnumeratorName_eq_ok.mpr ⟨definition, enumeration, hfound, hbody,
    hidentifier, Legality.enumeratorTaken_eq_false.mpr fun position enumerator hposition _ hsame => ?_⟩
  exact hfree (List.mem_map.mpr ⟨enumerator, List.mem_of_getElem? hposition, hsame⟩)

/-- The name of a new enumerator passes the check. -/
theorem checkEnumeratorName_freshEnumeratorName {enumeration : Enumeration}
    (hfound : registry.get? handle = some definition)
    (hbody : definition.body = .enumeration enumeration) :
    Legality.checkEnumeratorName registry handle none
      (Content.freshEnumeratorName registry handle enumeration) = .ok () :=
  (finds_freshEnumeratorName hfound hbody).check_eq_ok

/-- What the check of the name of an enumerator says about an enumeration at hand. -/
theorem checkEnumeratorName_of_body {enumeration : Enumeration} {index : Option Nat} {name : String}
    (hfound : registry.get? handle = some definition)
    (hbody : definition.body = .enumeration enumeration)
    (hcheck : Legality.checkEnumeratorName registry handle index name = .ok ()) :
    Legality.IsIdentifier name ∧ Legality.enumeratorTaken enumeration index name = false := by
  obtain ⟨_, _, hfound', hbody', hlegal, hfree⟩ := Legality.checkEnumeratorName_eq_ok.mp hcheck
  obtain rfl := Option.some.inj (hfound.symm.trans hfound')
  obtain rfl := TypeBody.enumeration.inj (hbody.symm.trans hbody')
  exact ⟨hlegal, hfree⟩

end Registry
end LiveSchema
