import LiveSchema.Value.Upkeep
import Mathlib.Data.List.Nodup
import Mathlib.Data.List.Perm.Subperm

/-!
# Entries of objects

Look-up in the entries of an object after a key was set, taken out or renamed.  Where every key occurs
once, `Registry.conform` and `Entries.renameKey` have closed forms.
-/

namespace LiveSchema
namespace Entries

variable {entries rest : Entries} {key other : String} {value : Json}

/-- The keys, in order. -/
def keys (entries : Entries) : List String :=
  entries.map Prod.fst

@[simp] theorem value?_nil : value? [] key = none := rfl

theorem value?_cons (entry : String × Json) (rest : Entries) (key : String) :
    value? (entry :: rest) key = if entry.1 = key then some entry.2 else value? rest key := by
  unfold value?
  by_cases h : entry.1 = key <;> simp [h]

theorem mem_of_value? (h : value? entries key = some value) : (key, value) ∈ entries := by
  obtain ⟨⟨found, held⟩, hfound, rfl⟩ := Option.map_eq_some_iff.mp h
  have hkey : found = key := by simpa using List.find?_some hfound
  exact hkey ▸ List.mem_of_find?_eq_some hfound

theorem value?_of_mem (hnodup : (keys entries).Nodup) (h : (key, value) ∈ entries) :
    value? entries key = some value := by
  induction entries with
  | nil => exact absurd h List.not_mem_nil
  | cons entry rest ih =>
      obtain ⟨hnot, hrest⟩ := List.nodup_cons.mp hnodup
      rw [value?_cons]
      rcases List.mem_cons.mp h with rfl | h
      · rw [if_pos rfl]
      · have hne : entry.1 ≠ key := by
          rintro rfl
          exact hnot (List.mem_map.mpr ⟨_, h, rfl⟩)
        rw [if_neg hne]
        exact ih hrest h

theorem value?_eq_none_iff : value? entries key = none ↔ key ∉ keys entries := by
  induction entries with
  | nil => simp [keys]
  | cons entry rest ih =>
      rw [value?_cons]
      by_cases h : entry.1 = key
      · simp [h, keys]
      · rw [if_neg h, ih]
        simp [keys, Ne.symm h]

theorem exists_value?_iff : (∃ value, value? entries key = some value) ↔ key ∈ keys entries := by
  rw [← Option.isSome_iff_exists, ← Option.ne_none_iff_isSome, ne_eq, value?_eq_none_iff, not_not]

theorem value?_append (first second : Entries) (key : String) :
    value? (first ++ second) key = (value? first key).or (value? second key) := by
  induction first with
  | nil => simp
  | cons entry rest ih =>
      rw [List.cons_append, value?_cons, value?_cons, ih]
      by_cases h : entry.1 = key <;> simp [h]

/-- Objects with the same entries in another order have the same values under their keys. -/
theorem value?_perm {first second : Entries} (hnodup : (keys first).Nodup)
    (hperm : first.Perm second) (key : String) : value? first key = value? second key := by
  have hnodup' : (keys second).Nodup := (hperm.map Prod.fst).nodup_iff.mp hnodup
  cases hfirst : value? first key with
  | some value =>
      exact (value?_of_mem hnodup' (hperm.mem_iff.mp (mem_of_value? hfirst))).symm
  | none =>
      rw [value?_eq_none_iff] at hfirst
      exact (value?_eq_none_iff.mpr fun h => hfirst ((hperm.map Prod.fst).mem_iff.mpr h)).symm

/-! ## Setting a key -/

theorem value?_assign (key : String) (value : Json) (entries : Entries) (other : String) :
    value? (assign key value entries) other =
      if key = other then some value else value? entries other := by
  induction entries with
  | nil => simp [assign, value?_cons]
  | cons entry rest ih =>
      rw [assign]
      by_cases hkey : entry.1 = key
      · rw [if_pos hkey, value?_cons, value?_cons, hkey]
        by_cases hother : key = other <;> simp [hother]
      · rw [if_neg hkey, value?_cons, value?_cons, ih]
        by_cases hother : entry.1 = other
        · have hne : key ≠ other := fun h => hkey (hother.trans h.symm)
          simp [hother, hne]
        · simp [hother]

theorem assign_of_not_mem (h : key ∉ keys entries) :
    assign key value entries = entries ++ [(key, value)] := by
  induction entries with
  | nil => rfl
  | cons entry rest ih =>
      simp only [keys, List.map_cons, List.mem_cons, not_or] at h
      rw [assign, if_neg (Ne.symm h.1), ih h.2, List.cons_append]

theorem keys_assign_of_mem (h : key ∈ keys entries) :
    keys (assign key value entries) = keys entries := by
  induction entries with
  | nil => exact absurd h List.not_mem_nil
  | cons entry rest ih =>
      rw [assign]
      by_cases hkey : entry.1 = key
      · rw [if_pos hkey]
        simp [keys, hkey]
      · rw [if_neg hkey]
        have hmem := (List.mem_cons.mp h).resolve_left (Ne.symm hkey)
        simpa [keys] using ih hmem

theorem length_assign_of_mem (h : key ∈ keys entries) :
    (assign key value entries).length = entries.length := by
  have hkeys := congrArg List.length (@keys_assign_of_mem entries key value h)
  simpa only [keys, List.length_map] using hkeys

/-- Setting the values under distinct new keys adds them in order. -/
theorem foldl_assign_eq_append {added : Entries} (hnodup : (keys (entries ++ added)).Nodup) :
    added.foldl (fun done entry => assign entry.1 entry.2 done) entries = entries ++ added := by
  induction added generalizing entries with
  | nil => simp
  | cons entry rest ih =>
      have hnot : entry.1 ∉ keys entries := by
        simp only [keys, List.map_append, List.map_cons] at hnodup
        intro h
        exact (List.nodup_append.mp hnodup).2.2 entry.1 h entry.1 List.mem_cons_self rfl
      rw [List.foldl_cons, assign_of_not_mem hnot, ih]
      · simp
      · simpa using hnodup

/-! ## Taking out a key -/

theorem extract?_eq_none_iff : extract? key entries = none ↔ key ∉ keys entries := by
  induction entries with
  | nil => simp [extract?, keys]
  | cons entry rest ih =>
      rw [extract?]
      by_cases h : entry.1 = key
      · rw [if_pos h]
        cases rest.getLast? <;> simp [keys, h]
      · rw [if_neg h, Option.map_eq_none_iff, ih]
        simp [keys, Ne.symm h]

/-- What is taken out and what is left are the entries, in some order. -/
theorem extract?_perm (h : extract? key entries = some (value, rest)) :
    entries.Perm ((key, value) :: rest) := by
  induction entries generalizing rest with
  | nil => exact absurd h (by rintro ⟨⟩)
  | cons entry others ih =>
      rw [extract?] at h
      by_cases hkey : entry.1 = key
      · rw [if_pos hkey] at h
        cases hlast : others.getLast? with
        | none =>
            rw [hlast] at h
            cases h
            rw [List.getLast?_eq_none_iff.mp hlast, ← hkey]
        | some last =>
            rw [hlast] at h
            cases h
            rw [← hkey]
            refine List.Perm.cons entry ?_
            have hsplit : others = others.dropLast ++ [last] :=
              (List.dropLast_append_getLast? last hlast).symm
            conv_lhs => rw [hsplit]
            exact List.perm_append_singleton last others.dropLast
      · rw [if_neg hkey] at h
        obtain ⟨⟨held, remaining⟩, hfound, hsame⟩ := Option.map_eq_some_iff.mp h
        cases hsame
        exact ((ih hfound).cons entry).trans (List.Perm.swap _ _ _)

theorem value?_of_extract? (hnodup : (keys entries).Nodup)
    (h : extract? key entries = some (value, rest)) :
    value? entries key = some value ∧ (keys rest).Nodup ∧
      ∀ other, other ≠ key → value? rest other = value? entries other := by
  have hperm := extract?_perm h
  have hkeys := (hperm.map Prod.fst).nodup_iff.mp hnodup
  refine ⟨?_, (List.nodup_cons.mp hkeys).2, fun other hne => ?_⟩
  · rw [value?_perm hnodup hperm, value?_cons, if_pos rfl]
  · rw [value?_perm hnodup hperm, value?_cons, if_neg (Ne.symm hne)]

/-! ## Renaming a key -/

/-- The key that takes the place of a key. -/
def renamed (source target key : String) : String :=
  if key = source then target else key

/-- Of all entries that get the same key, the last one counts. -/
theorem value?_renameKey (entries : Entries) (source target key : String) :
    value? (renameKey entries source target) key =
      ((entries.filter fun entry => renamed source target entry.1 = key).getLast?).map
        Prod.snd := by
  have hfold : ∀ entries done : Entries,
      value? (entries.foldl (fun done entry =>
        assign (renamed source target entry.1) entry.2 done) done) key =
          (((entries.filter fun entry => renamed source target entry.1 = key).getLast?).map
            Prod.snd).or (value? done key) := by
    intro entries
    induction entries with
    | nil => exact fun done => by simp
    | cons entry rest ih =>
        intro done
        rw [List.foldl_cons, ih, value?_assign]
        by_cases h : renamed source target entry.1 = key
        · rw [if_pos h, List.filter_cons_of_pos (by simpa using h), List.getLast?_cons]
          cases (rest.filter fun entry => renamed source target entry.1 = key).getLast? <;> simp
        · rw [if_neg h, List.filter_cons_of_neg (by simpa using h)]
  exact (hfold entries []).trans (Option.or_none)

theorem renameKey_eq_map {source target : String} (hnodup : (keys entries).Nodup)
    (htarget : target = source ∨ target ∉ keys entries) :
    renameKey entries source target =
      entries.map fun entry => (renamed source target entry.1, entry.2) := by
  have hfold : renameKey entries source target =
      (entries.map fun entry => (renamed source target entry.1, entry.2)).foldl
        (fun done entry => assign entry.1 entry.2 done) [] := by
    rw [List.foldl_map]
    rfl
  rw [hfold, foldl_assign_eq_append, List.nil_append]
  rw [List.nil_append, keys, List.map_map]
  have hkeys : (keys entries).map (renamed source target) =
      entries.map (Prod.fst ∘ fun entry => (renamed source target entry.1, entry.2)) := by
    rw [keys, List.map_map]
    rfl
  rw [← hkeys]
  refine List.Nodup.map_on (fun first hfirst second hsecond hsame => ?_) hnodup
  unfold renamed at hsame
  -- only the renamed key has the new name
  rcases htarget with rfl | htarget
  · split at hsame <;> split at hsame <;> simp_all
  · split at hsame <;> split at hsame <;> simp_all

/-- Renaming a key that does not occur, or renaming a key to itself, changes nothing. -/
theorem renameKey_of_unchanged {source target : String} (hnodup : (keys entries).Nodup)
    (hsame : ∀ key ∈ keys entries, renamed source target key = key) :
    renameKey entries source target = entries := by
  have hfold : renameKey entries source target =
      entries.foldl (fun done entry => assign entry.1 entry.2 done) [] := by
    refine List.foldl_ext _ _ _ fun done entry hentry => ?_
    exact congrArg (fun key => assign key entry.2 done)
      (hsame entry.1 (List.mem_map_of_mem (f := Prod.fst) hentry))
  rw [hfold, foldl_assign_eq_append, List.nil_append]
  rwa [List.nil_append]

theorem value?_map_renamed {source target : String} (htarget : target ∉ keys entries)
    (hne : other ≠ source) :
    value? (entries.map fun entry => (renamed source target entry.1, entry.2)) other =
      if other = target then value? entries source else value? entries other := by
  induction entries with
  | nil => simp
  | cons entry rest ih =>
      simp only [keys, List.map_cons, List.mem_cons, not_or] at htarget
      rw [List.map_cons, value?_cons, value?_cons, value?_cons, ih htarget.2]
      simp only [renamed]
      by_cases hsource : entry.1 = source
      · by_cases hother : other = target
        · simp [hsource, hother]
        · simp [hsource, hother, Ne.symm hother, Ne.symm hne]
      · by_cases hother : other = target
        · have hfirst : entry.1 ≠ target := Ne.symm htarget.1
          simp [hsource, hother, hfirst]
        · simp [hsource, hother]

end Entries

/-! ## Objects that follow fields -/

namespace Field

/-- The entries that give each field the value that a function says. -/
def entriesOf (fields : List Field) (valueOf : Field → Json) : Entries :=
  fields.map fun field => (field.name, valueOf field)

theorem keys_entriesOf (fields : List Field) (valueOf : Field → Json) :
    Entries.keys (entriesOf fields valueOf) = fields.map Field.name := by
  rw [Entries.keys, entriesOf, List.map_map]
  rfl

theorem value?_entriesOf {fields : List Field} {valueOf : Field → Json} {field : Field}
    (hnodup : (fields.map Field.name).Nodup) (hmem : field ∈ fields) :
    Entries.value? (entriesOf fields valueOf) field.name = some (valueOf field) := by
  refine Entries.value?_of_mem ?_ (List.mem_map.mpr ⟨field, hmem, rfl⟩)
  rw [keys_entriesOf]
  exact hnodup

end Field

namespace Registry

variable {registry : Registry}

theorem conformFields_fst {done previous : Entries} {fields : List Field}
    (hprevious : (Entries.keys previous).Nodup)
    (hdone : (Entries.keys done ++ fields.map Field.name).Nodup) :
    (registry.conformFields done previous fields).1 =
      done ++ Field.entriesOf fields fun field =>
        (Entries.value? previous field.name).getD (registry.defaultValue field.type) := by
  induction fields generalizing done previous with
  | nil => simp [conformFields, Field.entriesOf]
  | cons field rest ih =>
      rw [List.map_cons] at hdone
      have hnew : field.name ∉ Entries.keys done := fun h =>
        (List.nodup_append.mp hdone).2.2 field.name h field.name List.mem_cons_self rfl
      have hrest : field.name ∉ rest.map Field.name :=
        (List.nodup_cons.mp (List.nodup_append.mp hdone).2.1).1
      have hnext : ∀ value, (Entries.keys (done ++ [(field.name, value)]) ++
          rest.map Field.name).Nodup := by
        intro value
        simpa [Entries.keys] using hdone
      rw [conformFields]
      cases hextract : Entries.extract? field.name previous with
      | none =>
          have hnone := Entries.value?_eq_none_iff.mpr (Entries.extract?_eq_none_iff.mp hextract)
          simp only
          rw [Entries.assign_of_not_mem hnew, ih hprevious (hnext _)]
          simp [Field.entriesOf, hnone]
      | some found =>
          obtain ⟨value, remaining⟩ := found
          obtain ⟨hvalue, hremaining, hothers⟩ := Entries.value?_of_extract? hprevious hextract
          simp only
          rw [Entries.assign_of_not_mem hnew, ih hremaining (hnext _)]
          have hsame : Field.entriesOf rest (fun field =>
                (Entries.value? remaining field.name).getD (registry.defaultValue field.type)) =
              Field.entriesOf rest fun field =>
                (Entries.value? previous field.name).getD (registry.defaultValue field.type) := by
            refine List.map_congr_left fun other hother => ?_
            simp only [hothers other.name fun h => hrest (h ▸ List.mem_map_of_mem hother)]
          rw [hsame]
          simp [Field.entriesOf, hvalue]

/-- What is left over are the entries whose keys name no field. -/
theorem conformFields_snd {done previous : Entries} {fields : List Field}
    (hprevious : (Entries.keys previous).Nodup) :
    (registry.conformFields done previous fields).2.Perm
      (previous.filter fun entry => entry.1 ∉ fields.map Field.name) := by
  induction fields generalizing done previous with
  | nil => simp [conformFields]
  | cons field rest ih =>
      -- away from the name of the first field, only the names of the others matter
      have hothers : ∀ entries : Entries, field.name ∉ Entries.keys entries →
          (entries.filter fun entry => entry.1 ∉ (field :: rest).map Field.name) =
            entries.filter fun entry => entry.1 ∉ rest.map Field.name := by
        intro entries hnot
        refine List.filter_congr fun entry hentry => ?_
        have hne : entry.1 ≠ field.name := fun h =>
          hnot (h ▸ List.mem_map_of_mem (f := Prod.fst) hentry)
        simp [hne]
      rw [conformFields]
      cases hextract : Entries.extract? field.name previous with
      | none =>
          simp only
          rw [hothers previous (Entries.extract?_eq_none_iff.mp hextract)]
          exact ih hprevious
      | some found =>
          obtain ⟨value, remaining⟩ := found
          have hperm := Entries.extract?_perm hextract
          have hkeys := (hperm.map Prod.fst).nodup_iff.mp hprevious
          obtain ⟨hnot, hremaining⟩ := List.nodup_cons.mp hkeys
          refine (ih hremaining).trans (List.Perm.trans ?_ (hperm.filter _).symm)
          rw [List.filter_cons_of_neg (by simp), hothers remaining hnot]

/-- What the fields of a record put under a key where a value was `held`: the first field of this name
keeps it, and any other one puts its default in its place. -/
def fieldValue? (registry : Registry) (key : String) (held : Option Json) :
    List Field → Option Json
  | [] => none
  | field :: rest =>
    if field.name = key then
      (registry.fieldValue? key none rest).or (some (held.getD (registry.defaultValue field.type)))
    else registry.fieldValue? key held rest

theorem value?_conformFields {done previous : Entries} {fields : List Field}
    (hprevious : (Entries.keys previous).Nodup) (key : String) :
    Entries.value? (registry.conformFields done previous fields).1 key =
      (registry.fieldValue? key (Entries.value? previous key) fields).or
        (Entries.value? done key) := by
  induction fields generalizing done previous with
  | nil => rfl
  | cons field rest ih =>
      rw [conformFields, fieldValue?]
      cases hextract : Entries.extract? field.name previous with
      | none =>
          have hnone := Entries.value?_eq_none_iff.mpr (Entries.extract?_eq_none_iff.mp hextract)
          simp only
          rw [ih hprevious, Entries.value?_assign]
          by_cases hname : field.name = key
          · rw [if_pos hname, if_pos hname, ← hname, hnone, Option.or_assoc]
            rfl
          · rw [if_neg hname, if_neg hname]
      | some found =>
          obtain ⟨value, remaining⟩ := found
          obtain ⟨hvalue, hremaining, hothers⟩ := Entries.value?_of_extract? hprevious hextract
          simp only
          rw [ih hremaining, Entries.value?_assign]
          by_cases hname : field.name = key
          · have hgone : Entries.value? remaining key = none := by
              have hkeys := ((Entries.extract?_perm hextract).map Prod.fst).nodup_iff.mp hprevious
              exact Entries.value?_eq_none_iff.mpr (hname ▸ (List.nodup_cons.mp hkeys).1)
            rw [if_pos hname, if_pos hname, hgone, ← hname, hvalue, Option.or_assoc]
            rfl
          · rw [if_neg hname, if_neg hname, hothers key (Ne.symm hname)]

theorem isSome_fieldValue?_iff {key : String} {held : Option Json} {fields : List Field} :
    (registry.fieldValue? key held fields).isSome = true ↔ key ∈ fields.map Field.name := by
  induction fields generalizing held with
  | nil => simp [fieldValue?]
  | cons field rest ih =>
      rw [fieldValue?, List.map_cons, List.mem_cons]
      by_cases hname : field.name = key
      · simp [hname]
      · simp [hname, Ne.symm hname, ih]

/-- A value is kept if exactly one field has the name. -/
theorem fieldValue?_of_count_eq_one {key : String} {value : Json} {fields : List Field}
    (hcount : (fields.map Field.name).count key = 1) :
    registry.fieldValue? key (some value) fields = some value := by
  induction fields with
  | nil => exact absurd hcount (by simp)
  | cons field rest ih =>
      rw [List.map_cons, List.count_cons] at hcount
      rw [fieldValue?]
      by_cases hname : field.name = key
      · have hnone : registry.fieldValue? key none rest = none := by
          rw [← Option.not_isSome_iff_eq_none, isSome_fieldValue?_iff]
          refine List.count_eq_zero.mp ?_
          simpa [hname] using hcount
        rw [if_pos hname, hnone]
        rfl
      · rw [if_neg hname]
        exact ih (by simpa [hname] using hcount)

/-- Otherwise the value makes no difference. -/
theorem fieldValue?_of_count_ne_one {key : String} {held : Option Json} {fields : List Field}
    (hcount : (fields.map Field.name).count key ≠ 1) :
    registry.fieldValue? key held fields = registry.fieldValue? key none fields := by
  induction fields with
  | nil => rfl
  | cons field rest ih =>
      rw [List.map_cons, List.count_cons] at hcount
      rw [fieldValue?, fieldValue?]
      by_cases hname : field.name = key
      · -- a field of the same name comes later, and its default takes the place
        have hlater : key ∈ rest.map Field.name := by
          refine List.count_pos_iff.mp (Nat.pos_of_ne_zero fun hzero => hcount ?_)
          simp [hname, hzero]
        obtain ⟨standing, hstanding⟩ :=
          Option.isSome_iff_exists.mp ((@isSome_fieldValue?_iff registry key none rest).mpr hlater)
        rw [if_pos hname, if_pos hname, hstanding]
        rfl
      · rw [if_neg hname, if_neg hname]
        exact ih (by simpa [hname] using hcount)

/-- The object with exactly the fields of a record: each keeps its value or gets its default. -/
theorem conform_fst {record : TypeHandle} {entries : Entries}
    (hentries : (Entries.keys entries).Nodup)
    (hnames : (registry.allFieldNames record).Nodup) :
    (registry.conform record entries).1 =
      Field.entriesOf (registry.allFields record) fun field =>
        (Entries.value? entries field.name).getD (registry.defaultValue field.type) := by
  have hdone : (Entries.keys [] ++ (registry.allFields record).map Field.name).Nodup := hnames
  rw [conform, conformFields_fst hentries hdone, List.nil_append]

/-- The entries that have to go are those whose keys name no effective field. -/
theorem conform_snd {record : TypeHandle} {entries : Entries}
    (hentries : (Entries.keys entries).Nodup) :
    (registry.conform record entries).2.Perm
      (entries.filter fun entry => entry.1 ∉ registry.allFieldNames record) :=
  conformFields_snd hentries

end Registry
end LiveSchema
