import LiveSchema.Proofs.Json.Inner
import LiveSchema.Proofs.Value.Default
import LiveSchema.Value.Conversion

/-!
# Keys stay distinct

No object that the library makes repeats a key, if none of those it is made of does.  This holds of
setting, taking out and renaming keys, of default values, of converted values, and of fitting an object
to its record.
-/

namespace LiveSchema

/-! ## Entries -/

namespace Entries

open Json

variable {entries rest : Entries} {key : String} {value : Json}

theorem hasDistinctKeys_nil : (object []).HasDistinctKeys :=
  hasDistinctKeys_object.mpr ⟨List.nodup_nil, by simp⟩

theorem hasDistinctKeys_of_value? (h : (object entries).HasDistinctKeys)
    (hvalue : value? entries key = some value) : value.HasDistinctKeys :=
  (hasDistinctKeys_object.mp h).2 (key, value) (mem_of_value? hvalue)

theorem nodup_keys_assign (h : (keys entries).Nodup) (key : String) (value : Json) :
    (keys (assign key value entries)).Nodup := by
  by_cases hkey : key ∈ keys entries
  · rwa [keys_assign_of_mem hkey]
  · rw [assign_of_not_mem hkey, keys, List.map_append, List.map_singleton,
      List.nodup_append_comm, List.singleton_append, List.nodup_cons]
    exact ⟨hkey, h⟩

theorem mem_assign {entry : String × Json} (h : entry ∈ assign key value entries) :
    entry = (key, value) ∨ entry ∈ entries := by
  induction entries with
  | nil => exact Or.inl (List.mem_singleton.mp h)
  | cons first rest ih =>
      rw [assign] at h
      split at h
      · exact (List.mem_cons.mp h).imp_right (List.mem_cons_of_mem _)
      · rcases List.mem_cons.mp h with rfl | h
        · exact Or.inr List.mem_cons_self
        · exact (ih h).imp_right (List.mem_cons_of_mem _)

theorem hasDistinctKeys_assign (h : (object entries).HasDistinctKeys)
    (hvalue : value.HasDistinctKeys) (key : String) :
    (object (assign key value entries)).HasDistinctKeys := by
  obtain ⟨hkeys, hvalues⟩ := hasDistinctKeys_object.mp h
  refine hasDistinctKeys_object.mpr ⟨nodup_keys_assign hkeys key value, fun entry hentry => ?_⟩
  rcases mem_assign hentry with rfl | hentry
  · exact hvalue
  · exact hvalues entry hentry

theorem hasDistinctKeys_extract? (h : (object entries).HasDistinctKeys)
    (hextract : extract? key entries = some (value, rest)) :
    value.HasDistinctKeys ∧ (object rest).HasDistinctKeys := by
  obtain ⟨hkeys, hvalues⟩ := hasDistinctKeys_object.mp h
  have hperm := extract?_perm hextract
  refine ⟨hvalues _ (hperm.mem_iff.mpr List.mem_cons_self), hasDistinctKeys_object.mpr
    ⟨(value?_of_extract? hkeys hextract).2.1, fun entry hentry => ?_⟩⟩
  exact hvalues entry (hperm.mem_iff.mpr (List.mem_cons_of_mem _ hentry))

/-- Setting keys one after the other repeats none of them. -/
theorem hasDistinctKeys_foldl_assign {done added : Entries} (keyOf : String → String)
    (hdone : (object done).HasDistinctKeys) (hadded : ∀ entry ∈ added, entry.2.HasDistinctKeys) :
    (object (added.foldl (fun done entry => assign (keyOf entry.1) entry.2 done)
      done)).HasDistinctKeys := by
  induction added generalizing done with
  | nil => exact hdone
  | cons entry rest ih =>
      obtain ⟨hentry, hrest⟩ := List.forall_mem_cons.mp hadded
      exact ih (hasDistinctKeys_assign hdone hentry _) hrest

theorem hasDistinctKeys_renameKey (h : (object entries).HasDistinctKeys) (source target : String) :
    (object (renameKey entries source target)).HasDistinctKeys :=
  hasDistinctKeys_foldl_assign (renamed source target) hasDistinctKeys_nil
    (hasDistinctKeys_object.mp h).2

theorem hasDistinctKeys_merge (h : ∀ entry ∈ entries, entry.2.HasDistinctKeys) :
    (object (merge entries)).HasDistinctKeys :=
  hasDistinctKeys_foldl_assign id hasDistinctKeys_nil h

end Entries

namespace Registry

open Json

variable {registry : Registry}

/-! ## Default values -/

theorem hasDistinctKeys_zeroOf (component : VectorComponent) :
    (zeroOf component).HasDistinctKeys := by
  cases component <;> simp [zeroOf, ofFloat]

theorem hasDistinctKeys_simpleDefault (builtin : Builtin) :
    (simpleDefault builtin).HasDistinctKeys := by
  cases builtin with
  | vector component size =>
      refine hasDistinctKeys_array.mpr fun item hitem => ?_
      rw [List.eq_of_mem_replicate hitem]
      exact hasDistinctKeys_zeroOf component
  | _ => simp [simpleDefault, ofFloat]

theorem hasDistinctKeys_defaultEntries? {within : List TypeHandle} {done entries : Entries}
    {fields : List Field}
    (hfields : ∀ field ∈ fields, ∀ value, registry.defaultWithin? within field.type = some value →
      value.HasDistinctKeys)
    (hdone : (object done).HasDistinctKeys)
    (h : registry.defaultEntries? within done fields = some entries) :
    (object entries).HasDistinctKeys := by
  induction fields generalizing done with
  | nil =>
      rw [defaultEntries?_nil] at h
      exact Option.some.inj h ▸ hdone
  | cons field rest ih =>
      rw [defaultEntries?_cons] at h
      obtain ⟨value, hvalue, hrest⟩ := Option.bind_eq_some_iff.mp h
      obtain ⟨hfield, hothers⟩ := List.forall_mem_cons.mp hfields
      exact ih hothers (Entries.hasDistinctKeys_assign hdone (hfield value hvalue) field.name) hrest

theorem hasDistinctKeys_defaultWithin? {within : List TypeHandle} {reference : TypeReference}
    {value : Json} (h : registry.defaultWithin? within reference = some value) :
    value.HasDistinctKeys := by
  cases hfound : registry.get? reference.handle with
  | none =>
      rw [defaultWithin?_of_none hfound] at h
      rw [← Option.some.inj h]
      exact hasDistinctKeys_null
  | some definition =>
      cases hbody : definition.body with
      | enumeration enumeration =>
          rw [defaultWithin?_enumeration hfound hbody] at h
          rw [← Option.some.inj h]
          exact hasDistinctKeys_ofInt _
      | record record =>
          rw [defaultWithin?_record hfound hbody] at h
          split at h
          next => exact absurd h (by simp)
          next hmet =>
              obtain ⟨entries, hentries, rfl⟩ := Option.map_eq_some_iff.mp h
              have := unvisited_cons_lt (mem_handles.mpr (isLive_of_get? hfound)) hmet
              exact hasDistinctKeys_defaultEntries?
                (fun _ _ _ hvalue => hasDistinctKeys_defaultWithin? hvalue)
                Entries.hasDistinctKeys_nil hentries
      | builtin builtin =>
          -- the default of the first argument, which may be missing
          have hargument : ∀ part, registry.defaultArgument? within (reference.typeArgument? 0) =
              some part → part.HasDistinctKeys := by
            intro part hpart
            cases hinner : reference.typeArgument? 0 with
            | none =>
                rw [hinner] at hpart
                rw [← Option.some.inj hpart]
                exact hasDistinctKeys_null
            | some inner =>
                rw [hinner, defaultArgument?] at hpart
                have := TypeReference.sizeOf_lt_of_typeArgument? hinner
                exact hasDistinctKeys_defaultWithin? hpart
          by_cases harray : builtin = .array
          · subst harray
            rw [defaultWithin?_array hfound hbody] at h
            obtain ⟨element, helement, rfl⟩ := Option.map_eq_some_iff.mp h
            refine hasDistinctKeys_array.mpr fun item hitem => ?_
            rw [List.eq_of_mem_replicate hitem]
            exact hargument element helement
          · by_cases hvariant : builtin = .variant
            · subst hvariant
              rw [defaultWithin?_variant hfound hbody] at h
              obtain ⟨payload, hpayload, rfl⟩ := Option.map_eq_some_iff.mp h
              simpa using hargument payload hpayload
            · rw [defaultWithin?_simple hfound hbody harray hvariant] at h
              rw [← Option.some.inj h]
              exact hasDistinctKeys_simpleDefault builtin
termination_by (unvisited registry.handles within, sizeOf reference)

theorem hasDistinctKeys_defaultValue (registry : Registry) (reference : TypeReference) :
    (registry.defaultValue reference).HasDistinctKeys := by
  rw [defaultValue]
  cases h : registry.default? reference with
  | none => exact hasDistinctKeys_null
  | some value => exact hasDistinctKeys_defaultWithin? h

/-! ## Conversion -/

theorem hasDistinctKeys_toJson (scalar : Scalar) (builtin : Builtin) :
    (scalar.toJson builtin).HasDistinctKeys := by
  unfold Scalar.toJson
  split <;> simp [ofFloat]

theorem hasDistinctKeys_convert (registry : Registry) (source target : TypeReference)
    {value : Json} (h : value.HasDistinctKeys) : (registry.convert source target value).HasDistinctKeys := by
  unfold convert
  split
  · exact h
  · split
    next conversion builtin _ =>
        cases conversion with
        | toText => exact hasDistinctKeys_string _
        | cast => exact hasDistinctKeys_toJson _ _
        | ofText => exact hasDistinctKeys_toJson _ _
    next => exact hasDistinctKeys_defaultValue registry target

/-! ## Objects of a record -/

theorem hasDistinctKeys_conformFields {done previous : Entries}
    (hdone : (object done).HasDistinctKeys) (hprevious : (object previous).HasDistinctKeys)
    (fields : List Field) :
    (object (registry.conformFields done previous fields).1).HasDistinctKeys ∧
      (object (registry.conformFields done previous fields).2).HasDistinctKeys := by
  induction fields generalizing done previous with
  | nil => exact ⟨hdone, hprevious⟩
  | cons field rest ih =>
      rw [conformFields]
      cases hextract : Entries.extract? field.name previous with
      | none =>
          exact ih (Entries.hasDistinctKeys_assign hdone
            (hasDistinctKeys_defaultValue registry field.type) _) hprevious
      | some found =>
          obtain ⟨value, remaining⟩ := found
          obtain ⟨hvalue, hremaining⟩ := Entries.hasDistinctKeys_extract? hprevious hextract
          exact ih (Entries.hasDistinctKeys_assign hdone hvalue _) hremaining

/-- Neither an object that was fitted to its record nor what had to go from it repeats a key. -/
theorem hasDistinctKeys_conform (registry : Registry) {entries : Entries}
    (h : (object entries).HasDistinctKeys) (record : TypeHandle) :
    (object (registry.conform record entries).1).HasDistinctKeys ∧
      (object (registry.conform record entries).2).HasDistinctKeys :=
  hasDistinctKeys_conformFields Entries.hasDistinctKeys_nil h _

end Registry
end LiveSchema
