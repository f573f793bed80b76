import LiveSchema.Store
import Mathlib.Data.List.Nodup

/-!
# Looking up names

What `NameMap.get?` finds after a map was changed, and what the root of a name in the store of a name
is after a store was.
-/

namespace LiveSchema
namespace NameMap

variable {α : Type u} {β : Type v} {σ : Type w} {map : NameMap α} {name other : String} {value : α}

/-! ## Look-up -/

/-- The value under a name in a list of entries. -/
def lookup (entries : List (String × α)) (name : String) : Option α :=
  (entries.find? fun entry => entry.1 = name).map Prod.snd

theorem get?_eq_lookup (map : NameMap α) (name : String) :
    map.get? name = lookup map.entries name := rfl

@[simp] theorem lookup_nil (name : String) : lookup ([] : List (String × α)) name = none := rfl

theorem lookup_cons (entry : String × α) (rest : List (String × α)) (name : String) :
    lookup (entry :: rest) name = if entry.1 = name then some entry.2 else lookup rest name := by
  unfold lookup
  by_cases h : entry.1 = name <;> simp [h]

/-- No name occurs twice. -/
theorem nodup_names (map : NameMap α) : map.names.Nodup := by
  refine List.pairwise_map.mpr (map.sorted.imp fun hprecedes hsame => ?_)
  rw [hsame, Text.precedes_irrefl] at hprecedes
  exact Bool.false_ne_true hprecedes

theorem lookup_eq_some_iff {entries : List (String × α)}
    (hnodup : (entries.map Prod.fst).Nodup) :
    lookup entries name = some value ↔ (name, value) ∈ entries := by
  induction entries with
  | nil => simp
  | cons entry rest ih =>
      obtain ⟨hnot, hrest⟩ := List.nodup_cons.mp hnodup
      obtain ⟨key, held⟩ := entry
      rw [lookup_cons, List.mem_cons]
      by_cases h : key = name
      · subst h
        rw [if_pos rfl, Option.some.injEq]
        constructor
        · rintro rfl
          exact Or.inl rfl
        · rintro (h | h)
          · exact (Prod.mk.inj h).2.symm
          · exact absurd (List.mem_map_of_mem (f := Prod.fst) h) hnot
      · rw [if_neg h, ih hrest]
        simp [Ne.symm h]

theorem get?_eq_some_iff : map.get? name = some value ↔ (name, value) ∈ map.entries :=
  lookup_eq_some_iff map.nodup_names

theorem mem_names_iff : name ∈ map.names ↔ ∃ value, map.get? name = some value := by
  rw [names, List.mem_map]
  constructor
  · rintro ⟨⟨_, value⟩, hmem, rfl⟩
    exact ⟨value, get?_eq_some_iff.mpr hmem⟩
  · rintro ⟨value, hfound⟩
    exact ⟨(name, value), get?_eq_some_iff.mp hfound, rfl⟩

@[simp] theorem get?_empty (name : String) : (empty : NameMap α).get? name = none := rfl

/-! ## Look-up after a change -/

theorem lookup_insertEntry (name : String) (value : α) (entries : List (String × α))
    (other : String) :
    lookup (insertEntry name value entries) other =
      if name = other then some value else lookup entries other := by
  induction entries with
  | nil => rw [insertEntry, lookup_cons]
  | cons entry rest ih =>
      rw [insertEntry]
      split
      · rw [lookup_cons]
      · split
        next hsame =>
            rw [lookup_cons, lookup_cons, ← hsame]
            by_cases hother : name = other <;> simp [hother]
        next hdifferent =>
            rw [lookup_cons, lookup_cons, ih]
            by_cases hother : entry.1 = other
            · have hne : name ≠ other := fun h => hdifferent (h.trans hother.symm)
              simp [hother, hne]
            · simp [hother]

theorem get?_insert (map : NameMap α) (name : String) (value : α) (other : String) :
    (map.insert name value).get? other = if name = other then some value else map.get? other :=
  lookup_insertEntry name value map.entries other

theorem contains_of_get? (h : map.get? name = some value) : map.contains name = true := by
  rw [contains, h, Option.isSome_some]

theorem contains_insert : (map.insert name value).contains other = true ↔
    name = other ∨ map.contains other = true := by
  rw [contains, get?_insert]
  split
  next hsame => simp [hsame]
  next hdifferent => simp [hdifferent, contains]

theorem get?_erase (map : NameMap α) (name other : String) :
    (map.erase name).get? other = if name = other then none else map.get? other := by
  refine Option.ext fun value => ?_
  rw [get?_eq_some_iff, erase, List.mem_filter, ← get?_eq_some_iff]
  by_cases h : name = other
  · simp [h]
  · simp [h, Ne.symm h]

/-- The values under names that are kept. -/
def filter (map : NameMap α) (keep : String → Bool) : NameMap α :=
  ⟨map.entries.filter fun entry => keep entry.1, map.sorted.filter _⟩

theorem get?_filter (map : NameMap α) (keep : String → Bool) (name : String) :
    (map.filter keep).get? name = if keep name then map.get? name else none := by
  refine Option.ext fun value => ?_
  rw [get?_eq_some_iff, filter, List.mem_filter, ← get?_eq_some_iff]
  cases keep name <;> simp

theorem get?_mapValues (map : NameMap α) (f : String → α → β) (name : String) :
    (map.mapValues f).get? name = (map.get? name).map (f name) := by
  rw [get?_eq_lookup, get?_eq_lookup, mapValues]
  simp only
  induction map.entries with
  | nil => rfl
  | cons entry rest ih =>
      rw [List.map_cons, lookup_cons, lookup_cons, ih]
      by_cases h : entry.1 = name <;> simp [h]

/-- A change whose results do not depend on the state changes every value by itself. -/
theorem mapFrom_snd {f : σ → String → α → σ × β} {g : String → α → β}
    (hplain : ∀ state name value, (f state name value).2 = g name value) (map : NameMap α)
    (state : σ) : (map.mapFrom state f).2 = map.mapValues g := by
  have hentries : ∀ (entries : List (String × α)) (state : σ),
      (mapEntriesFrom f state entries).2 = entries.map fun entry => (entry.1, g entry.1 entry.2) := by
    intro entries
    induction entries with
    | nil => intro state; rfl
    | cons entry rest ih =>
        intro state
        rw [mapEntriesFrom, List.map_cons, ← ih (f state entry.1 entry.2).1, ← hplain state]
  simp only [mapFrom, mapValues, hentries]

/-- The state goes through the values in the order of their names. -/
theorem mapFrom_fst (f : σ → String → α → σ × β) (map : NameMap α) (state : σ) :
    (map.mapFrom state f).1 =
      map.entries.foldl (fun state entry => (f state entry.1 entry.2).1) state := by
  have hentries : ∀ (entries : List (String × α)) (state : σ), (mapEntriesFrom f state entries).1 =
      entries.foldl (fun state entry => (f state entry.1 entry.2).1) state := by
    intro entries
    induction entries with
    | nil => intro state; rfl
    | cons entry rest ih =>
        intro state
        rw [mapEntriesFrom, List.foldl_cons, ← ih]
  exact hentries map.entries state

/-- What a change keeps of the state, and makes of the values, holds of the whole map. -/
theorem mapFrom_keeps {Sound : σ → Prop} {before : α → Prop} {after : β → Prop}
    {f : σ → String → α → σ × β}
    (hf : ∀ state name value, Sound state → before value →
      Sound (f state name value).1 ∧ after (f state name value).2)
    {map : NameMap α} {state : σ} (hstate : Sound state)
    (hmap : ∀ name value, (name, value) ∈ map.entries → before value) :
    Sound (map.mapFrom state f).1 ∧
      ∀ name value, (name, value) ∈ (map.mapFrom state f).2.entries → after value := by
  have hentries : ∀ (entries : List (String × α)) (state : σ), Sound state →
      (∀ entry ∈ entries, before entry.2) →
      Sound (mapEntriesFrom f state entries).1 ∧
        ∀ entry ∈ (mapEntriesFrom f state entries).2, after entry.2 := by
    intro entries
    induction entries with
    | nil => exact fun state hstate _ => ⟨hstate, by simp [mapEntriesFrom]⟩
    | cons entry rest ih =>
        intro state hstate hbefore
        obtain ⟨hentry, hrest⟩ := List.forall_mem_cons.mp hbefore
        obtain ⟨hnext, hafter⟩ := hf state entry.1 entry.2 hstate hentry
        obtain ⟨hend, hothers⟩ := ih (f state entry.1 entry.2).1 hnext hrest
        exact ⟨hend, List.forall_mem_cons.mpr ⟨hafter, hothers⟩⟩
  obtain ⟨hend, hafter⟩ := hentries map.entries state hstate fun entry hentry =>
    hmap entry.1 entry.2 hentry
  exact ⟨hend, fun name value hentry => hafter (name, value) hentry⟩

/-! ## Equality -/

/-- Maps with the same values under the same names are equal. -/
theorem ext_get? {first second : NameMap α} (h : ∀ name, first.get? name = second.get? name) :
    first = second := by
  have hnodup : ∀ map : NameMap α, map.entries.Nodup := fun map =>
    List.Nodup.of_map Prod.fst map.nodup_names
  have hmem : ∀ entry, entry ∈ first.entries ↔ entry ∈ second.entries := by
    rintro ⟨name, value⟩
    rw [← get?_eq_some_iff, ← get?_eq_some_iff, h name]
  have hperm := (List.perm_ext_iff_of_nodup (hnodup first) (hnodup second)).mpr hmem
  have hentries : first.entries = second.entries := by
    refine hperm.eq_of_pairwise ?_ first.sorted second.sorted
    intro a b _ _ hab hba
    have hcircle := Text.precedes_trans hab hba
    rw [Text.precedes_irrefl] at hcircle
    exact absurd hcircle Bool.false_ne_true
  cases first
  cases second
  exact NameMap.mk.injEq .. |>.mpr hentries

/-- Writing the value that is there changes nothing. -/
theorem insert_of_get?_eq_some {map : NameMap α} {name : String} {value : α}
    (h : map.get? name = some value) : map.insert name value = map :=
  ext_get? fun other => by
    rw [get?_insert]
    split
    next hname => rw [← hname, h]
    next => rfl

/-- Removing what is not there changes nothing. -/
theorem erase_of_get?_eq_none {map : NameMap α} {name : String} (h : map.get? name = none) :
    map.erase name = map :=
  ext_get? fun other => by
    rw [get?_erase]
    split
    next hname => rw [← hname, h]
    next => rfl

theorem lookup_eq_none_of_not_mem {entries : List (String × α)}
    (h : name ∉ entries.map Prod.fst) : lookup entries name = none := by
  induction entries with
  | nil => rfl
  | cons entry rest ih =>
      rw [List.map_cons, List.mem_cons, not_or] at h
      rw [lookup_cons, if_neg (Ne.symm h.1), ih h.2]

theorem get?_foldl_insert {entries : List (String × α)} (hnodup : (entries.map Prod.fst).Nodup)
    (map : NameMap α) (name : String) :
    (entries.foldl (fun map entry => map.insert entry.1 entry.2) map).get? name =
      (lookup entries name).or (map.get? name) := by
  induction entries generalizing map with
  | nil => simp
  | cons entry rest ih =>
      obtain ⟨hnot, hrest⟩ := List.nodup_cons.mp hnodup
      rw [List.foldl_cons, ih hrest, get?_insert, lookup_cons]
      by_cases h : entry.1 = name
      · subst h
        simp [lookup_eq_none_of_not_mem hnot]
      · simp [h]

theorem get?_ofList {entries : List (String × α)} (hnodup : (entries.map Prod.fst).Nodup)
    (name : String) : (ofList entries).get? name = lookup entries name := by
  rw [ofList, get?_foldl_insert hnodup]
  simp

theorem mem_of_mem_names_ofList {entries : List (String × α)}
    (hnodup : (entries.map Prod.fst).Nodup) (h : name ∈ (ofList entries).names) :
    name ∈ entries.map Prod.fst := by
  obtain ⟨value, hfound⟩ := mem_names_iff.mp h
  rw [get?_ofList hnodup] at hfound
  by_contra hnot
  exact absurd (lookup_eq_none_of_not_mem hnot) (by simp [hfound])

/-- A map is made of its entries. -/
theorem ofList_entries (map : NameMap α) : ofList map.entries = map :=
  ext_get? fun name => get?_ofList map.nodup_names name

end NameMap

/-! ## Roots -/

namespace Stores

variable {stores : Stores}

theorem root?_eq_some_iff {store name : String} {root : Root} :
    stores.root? store name = some root ↔
      ∃ kept, stores.get? store = some kept ∧ NameMap.get? kept name = some root :=
  Option.bind_eq_some_iff

theorem root?_insert (store : String) (kept : Store) (other name : String) :
    Stores.root? (stores.insert store kept) other name =
      if store = other then NameMap.get? kept name else stores.root? other name := by
  rw [root?, NameMap.get?_insert]
  split
  · rfl
  · rfl

/-- A property of all roots of all stores. -/
def EveryRoot (stores : Stores) (property : Root → Prop) : Prop :=
  ∀ store name root, stores.root? store name = some root → property root

variable {property : Root → Prop} {store name : String} {kept : Store}

/-- The roots of a store are the values of its entries. -/
theorem everyRoot_iff : stores.EveryRoot property ↔
    ∀ store kept, (store, kept) ∈ stores.entries →
      ∀ name root, (name, root) ∈ NameMap.entries kept → property root := by
  constructor
  · intro h store kept hstore name root hroot
    exact h store name root (root?_eq_some_iff.mpr
      ⟨kept, NameMap.get?_eq_some_iff.mpr hstore, NameMap.get?_eq_some_iff.mpr hroot⟩)
  · intro h store name root hroot
    obtain ⟨kept, hkept, hfound⟩ := root?_eq_some_iff.mp hroot
    exact h store kept (NameMap.get?_eq_some_iff.mp hkept) name root
      (NameMap.get?_eq_some_iff.mp hfound)

/-- A store may be put in whose roots were there or have the property. -/
theorem EveryRoot.insert (h : stores.EveryRoot property)
    (hkept : ∀ name root, NameMap.get? kept name = some root →
      stores.root? store name = some root ∨ property root) :
    Stores.EveryRoot (stores.insert store kept) property := by
  intro other name root hroot
  rw [root?_insert] at hroot
  by_cases hsame : store = other
  · rw [if_pos hsame] at hroot
    rcases hkept name root hroot with hold | hnew
    · exact h store name root hold
    · exact hnew
  · rw [if_neg hsame] at hroot
    exact h other name root hroot

theorem EveryRoot.insertRoot (h : stores.EveryRoot property) {root : Root}
    (hkept : stores.get? store = some kept) (hroot : property root) :
    Stores.EveryRoot (stores.insert store (NameMap.insert kept name root)) property := by
  refine h.insert fun other held hheld => ?_
  rw [NameMap.get?_insert] at hheld
  split at hheld
  · exact Or.inr (Option.some.inj hheld ▸ hroot)
  · exact Or.inl (root?_eq_some_iff.mpr ⟨kept, hkept, hheld⟩)

theorem EveryRoot.eraseRoot (h : stores.EveryRoot property)
    (hkept : stores.get? store = some kept) :
    Stores.EveryRoot (stores.insert store (NameMap.erase kept name)) property := by
  refine h.insert fun other held hheld => ?_
  rw [NameMap.get?_erase] at hheld
  split at hheld
  · exact absurd hheld (by simp)
  · exact Or.inl (root?_eq_some_iff.mpr ⟨kept, hkept, hheld⟩)

/-- The stores with a single root, in the main store. -/
def single (name : String) (root : Root) : Stores :=
  NameMap.empty.insert mainStore (NameMap.empty.insert name root)

variable {root : Root}

theorem root?_single : (single name root).root? mainStore name = some root := by
  rw [single, root?_insert, if_pos rfl, NameMap.get?_insert, if_pos rfl]

theorem everyRoot_single_iff : (single name root).EveryRoot property ↔ property root := by
  refine ⟨fun h => h mainStore name root root?_single, fun h store other found hfound => ?_⟩
  rw [single, root?_insert] at hfound
  split at hfound
  · rw [NameMap.get?_insert] at hfound
    split at hfound
    · exact Option.some.inj hfound ▸ h
    · exact absurd hfound (by simp)
  · exact absurd hfound (by simp [root?])

end Stores
end LiveSchema
