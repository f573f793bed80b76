import LiveSchema.Text.Order

/-!
# Maps sorted by name

A `NameMap` keeps values under distinct names, in the order of the names.  The order is part of the
type, so maps with the same values under the same names are equal.
-/

namespace LiveSchema

/-- Values under distinct names, sorted by name. -/
structure NameMap (α : Type u) where
  entries : List (String × α)
  sorted : entries.Pairwise fun a b => Text.precedes a.1.toList b.1.toList = true

namespace NameMap

variable {α : Type u} {β : Type v} {σ : Type w}

/-- The map without any names. -/
def empty : NameMap α := ⟨[], .nil⟩

instance : Inhabited (NameMap α) := ⟨empty⟩

instance : EmptyCollection (NameMap α) := ⟨empty⟩

/-- The value under a name. -/
def get? (map : NameMap α) (name : String) : Option α :=
  (map.entries.find? fun entry => entry.1 = name).map Prod.snd

/-- Whether a name occurs. -/
def contains (map : NameMap α) (name : String) : Bool :=
  (map.get? name).isSome

/-- The names, in order. -/
def names (map : NameMap α) : List String :=
  map.entries.map Prod.fst

/-- The values, in the order of their names. -/
def values (map : NameMap α) : List α :=
  map.entries.map Prod.snd

/-- How many names there are. -/
def size (map : NameMap α) : Nat :=
  map.entries.length

/-! ## Insertion -/

/-- Puts an entry into its place among sorted ones, over an entry of the same name. -/
def insertEntry (name : String) (value : α) : List (String × α) → List (String × α)
  | [] => [(name, value)]
  | entry :: rest =>
    if Text.precedes name.toList entry.1.toList then (name, value) :: entry :: rest
    else if name = entry.1 then (name, value) :: rest
    else entry :: insertEntry name value rest

theorem mem_insertEntry {name : String} {value : α} {entries : List (String × α)}
    {entry : String × α} (h : entry ∈ insertEntry name value entries) :
    entry = (name, value) ∨ entry ∈ entries := by
  induction entries with
  | nil => simpa [insertEntry] using h
  | cons first rest ih =>
    simp only [insertEntry] at h
    split at h
    · simpa using h
    · split at h
      · rcases List.mem_cons.mp h with h | h
        · exact Or.inl h
        · exact Or.inr (List.mem_cons_of_mem _ h)
      · rcases List.mem_cons.mp h with rfl | h
        · exact Or.inr List.mem_cons_self
        · exact (ih h).imp_right (List.mem_cons_of_mem _)

theorem sorted_insertEntry (name : String) (value : α) {entries : List (String × α)}
    (sorted : entries.Pairwise fun a b => Text.precedes a.1.toList b.1.toList = true) :
    (insertEntry name value entries).Pairwise
      fun a b => Text.precedes a.1.toList b.1.toList = true := by
  induction entries with
  | nil => simp [insertEntry]
  | cons first rest ih =>
    have parts := List.pairwise_cons.mp sorted
    simp only [insertEntry]
    split
    next before =>
      refine List.pairwise_cons.mpr ⟨fun entry hentry => ?_, sorted⟩
      rcases List.mem_cons.mp hentry with rfl | hentry
      · exact before
      · exact Text.precedes_trans before (parts.1 entry hentry)
    next notBefore =>
      split
      next same =>
        subst same
        exact List.pairwise_cons.mpr ⟨parts.1, parts.2⟩
      next different =>
        refine List.pairwise_cons.mpr ⟨fun entry hentry => ?_, ih parts.2⟩
        rcases mem_insertEntry hentry with rfl | hentry
        · rcases Text.precedes_total name.toList first.1.toList with h | h | h
          · exact absurd h notBefore
          · exact absurd (String.toList_inj.mp h) different
          · exact h
        · exact parts.1 entry hentry

/-- Sets the value under a name. -/
def insert (map : NameMap α) (name : String) (value : α) : NameMap α :=
  ⟨insertEntry name value map.entries, sorted_insertEntry name value map.sorted⟩

/-- The map of a list of entries; of entries with one name the last counts. -/
def ofList (entries : List (String × α)) : NameMap α :=
  entries.foldl (fun map entry => map.insert entry.1 entry.2) empty

/-! ## Removal and change -/

/-- Removes a name. -/
def erase (map : NameMap α) (name : String) : NameMap α :=
  ⟨map.entries.filter fun entry => entry.1 ≠ name, map.sorted.filter _⟩

/-- Changes every value, by its name. -/
def mapValues (map : NameMap α) (f : String → α → β) : NameMap β :=
  ⟨map.entries.map fun entry => (entry.1, f entry.1 entry.2), List.pairwise_map.mpr map.sorted⟩

/-- Changes values one after the other, in order, along a state. -/
def mapEntriesFrom (f : σ → String → α → σ × β) : σ → List (String × α) → σ × List (String × β)
  | state, [] => (state, [])
  | state, (name, value) :: rest =>
    let (state, changed) := f state name value
    let (state, rest) := mapEntriesFrom f state rest
    (state, (name, changed) :: rest)

theorem map_fst_mapEntriesFrom (f : σ → String → α → σ × β) (state : σ)
    (entries : List (String × α)) :
    (mapEntriesFrom f state entries).2.map Prod.fst = entries.map Prod.fst := by
  induction entries generalizing state with
  | nil => rfl
  | cons entry rest ih => simp [mapEntriesFrom, ih]

/-- Changes every value in order, along a state. -/
def mapFrom (map : NameMap α) (state : σ) (f : σ → String → α → σ × β) : σ × NameMap β :=
  let result := mapEntriesFrom f state map.entries
  (result.1, ⟨result.2, by
    have names := map_fst_mapEntriesFrom f state map.entries
    have sorted := (List.pairwise_map (f := Prod.fst)
      (R := fun a b : String => Text.precedes a.toList b.toList = true)).mpr map.sorted
    rw [← names] at sorted
    exact List.pairwise_map.mp sorted⟩)

end NameMap
end LiveSchema
