import LiveSchema.Document.Decode
import LiveSchema.Proofs.Json.Roundtrip
import LiveSchema.Proofs.NameMap
import LiveSchema.Schema.Descriptor

/-!
# Decoding what was written

What the decoders answer for the drafts of values: of an object with distinct keys, of a list, and of
a map from names.
-/

namespace LiveSchema
namespace Decode

variable {α : Type}

theorem filter_key {entries : List (String × Draft)} (hkeys : (entries.map Prod.fst).Nodup)
    (key : String) :
    (entries.filter fun entry => entry.1 = key) =
      ((NameMap.lookup entries key).map fun draft => (key, draft)).toList := by
  induction entries with
  | nil => rfl
  | cons entry rest ih =>
      obtain ⟨hnot, hrest⟩ := List.nodup_cons.mp hkeys
      obtain ⟨name, draft⟩ := entry
      rw [NameMap.lookup_cons]
      by_cases h : name = key
      · subst h
        have hnone : (rest.filter fun entry => entry.1 = name) = [] := by
          rw [ih hrest, NameMap.lookup_eq_none_of_not_mem hnot]
          rfl
        simpa using hnone
      · simpa [h] using ih hrest

theorem slots?_object {entries : List (String × Draft)} (hkeys : (entries.map Prod.fst).Nodup)
    (keys : List String) :
    slots? keys (.object entries) = some (keys.map (NameMap.lookup entries)) := by
  unfold slots?
  induction keys with
  | nil => rfl
  | cons key rest ih =>
      simp only at ih ⊢
      rw [List.mapM_cons, ih, filter_key hkeys]
      cases hfound : NameMap.lookup entries key <;> simp [hfound]

/-- The parts of an object are found under their keys. -/
theorem slots?_ofJson {entries : Entries} (hkeys : (Entries.keys entries).Nodup)
    (keys : List String) :
    slots? keys (Draft.ofJson (.object entries)) =
      some (keys.map fun key => (Entries.value? entries key).map Draft.ofJson) := by
  have hsame : ∀ key, NameMap.lookup (entries.map fun entry => (entry.1, Draft.ofJson entry.2)) key =
      (Entries.value? entries key).map Draft.ofJson := by
    intro key
    induction entries with
    | nil => rfl
    | cons entry rest ih =>
        rw [List.map_cons, NameMap.lookup_cons, Entries.value?_cons, ih (List.nodup_cons.mp hkeys).2]
        by_cases h : entry.1 = key <;> simp [h]
  have hkeys' : ((entries.map fun entry => (entry.1, Draft.ofJson entry.2)).map Prod.fst).Nodup := by
    rw [List.map_map]
    exact hkeys
  rw [Draft.ofJson, Draft.ofEntries_eq_map, slots?_object hkeys' keys]
  simp [hsame]

variable {decode : Draft → Option α} {encode : α → Json}

/-- A list is decoded if its elements are. -/
theorem list?_ofJson {list : List α} (h : ∀ a ∈ list, decode (Draft.ofJson (encode a)) = some a) :
    list? decode (Draft.ofJson (.array (list.map encode))) = some list := by
  rw [Draft.ofJson, Draft.ofItems_eq_map, list?, List.map_map]
  induction list with
  | nil => rfl
  | cons a rest ih =>
      rw [List.map_cons, List.mapM_cons, ih fun b hb => h b (List.mem_cons_of_mem _ hb)]
      simp [h a List.mem_cons_self]

/-- A map from names is decoded if its values are. -/
theorem map?_ofJson {map : NameMap α}
    (h : ∀ name a, (name, a) ∈ map.entries → decode (Draft.ofJson (encode a)) = some a) :
    map? decode (Draft.ofJson (.object (map.mapValues fun _ a => encode a).entries)) = some map := by
  have hentries : ∀ entries : List (String × α),
      (∀ name a, (name, a) ∈ entries → decode (Draft.ofJson (encode a)) = some a) →
        (entries.map fun entry => (entry.1, Draft.ofJson (encode entry.2))).mapM
          (fun entry => (decode entry.2).map fun value => (entry.1, value)) = some entries := by
    intro entries
    induction entries with
    | nil => intro _; rfl
    | cons entry rest ih =>
        intro hread
        obtain ⟨name, a⟩ := entry
        rw [List.map_cons, List.mapM_cons,
          ih fun other b hb => hread other b (List.mem_cons_of_mem _ hb)]
        simp [hread name a List.mem_cons_self]
  rw [Draft.ofJson, Draft.ofEntries_eq_map, map?, NameMap.mapValues, List.map_map]
  have hread := hentries map.entries h
  simp only [Function.comp_def] at hread ⊢
  rw [hread, Option.map_some, NameMap.ofList_entries]

/-- A part is left out only where it is the default. -/
theorem withDefault?_unless {condition : Prop} [Decidable condition] {default a : α} {value : Json}
    (hdefault : condition → a = default) (hdecode : decode (Draft.ofJson value) = some a) :
    withDefault? default decode
      ((if condition then none else some value).map Draft.ofJson) = some a := by
  by_cases h : condition
  · rw [if_pos h, hdefault h]
    rfl
  · rw [if_neg h]
    exact hdecode

end Decode

/-! ## Parts that may be left out -/

namespace Entries

theorem value?_entryUnless (omitted : Bool) (key : String) (value : Json) (other : String) :
    value? (entryUnless omitted key value) other =
      if key = other ∧ omitted = false then some value else none := by
  cases omitted with
  | true => simp [entryUnless]
  | false => simp [entryUnless, value?_cons]

theorem keys_entryUnless_sublist (omitted : Bool) (key : String) (value : Json) :
    (keys (entryUnless omitted key value)).Sublist [key] := by
  cases omitted with
  | true => exact List.nil_sublist _
  | false => exact List.Sublist.refl _

/-- What holds of the value holds of the entry, if there is one. -/
theorem forall_entryUnless (property : Json → Prop) {value : Json} (h : property value)
    (omitted : Bool) (key : String) :
    ∀ entry ∈ entryUnless omitted key value, property entry.2 := by
  intro entry hentry
  cases omitted with
  | true => exact absurd hentry List.not_mem_nil
  | false =>
      rw [List.mem_singleton.mp hentry]
      exact h

theorem keys_append (first second : Entries) : keys (first ++ second) = keys first ++ keys second :=
  List.map_append

end Entries
end LiveSchema
