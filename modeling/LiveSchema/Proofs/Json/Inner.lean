import LiveSchema.Proofs.Json.Numbers
import LiveSchema.Proofs.Value.Entries

/-!
# Values inside values

Induction over the values inside a JSON value, and two properties of everything inside it: that no
object repeats a key, and that every number reads back.
-/

namespace LiveSchema
namespace Json

/-! ## Directly inside -/

/-- The items of an array, or the values of the entries of an object. -/
def inner : Json → List Json
  | array items => items
  | object entries => entries.map Prod.snd
  | _ => []

variable {value held found : Json}

theorem sizeOf_lt_of_mem_inner (h : held ∈ value.inner) : sizeOf held < sizeOf value := by
  cases value with
  | array items =>
      have hlt := List.sizeOf_lt_of_mem (show held ∈ items from h)
      rw [array.sizeOf_spec]
      omega
  | object entries =>
      obtain ⟨entry, hentry, rfl⟩ := List.mem_map.mp (show held ∈ entries.map Prod.snd from h)
      have hlt := List.sizeOf_lt_of_mem hentry
      obtain ⟨key, value⟩ := entry
      simp only [Prod.mk.sizeOf_spec] at hlt
      rw [object.sizeOf_spec]
      dsimp only
      omega
  | _ => exact absurd h (by simp [inner])

/-- Induction over the values inside a value. -/
theorem inner_induction {motive : Json → Prop}
    (step : ∀ value, (∀ held ∈ value.inner, motive held) → motive value) (value : Json) :
    motive value :=
  step value fun held _ => inner_induction step held
termination_by sizeOf value
decreasing_by exact sizeOf_lt_of_mem_inner (by assumption)

theorem le_depthOfItems {sofar : Nat} {items : List Json} :
    sofar ≤ depthOfItems sofar items ∧
      ∀ item ∈ items, item.depth ≤ depthOfItems sofar items := by
  induction items generalizing sofar with
  | nil => simp [depthOfItems]
  | cons first rest ih =>
      rw [depthOfItems]
      obtain ⟨hsofar, hrest⟩ := @ih (max sofar first.depth)
      refine ⟨by omega, fun item hitem => ?_⟩
      rcases List.mem_cons.mp hitem with rfl | hitem
      · omega
      · exact hrest item hitem

theorem le_depthOfEntries {sofar : Nat} {entries : Entries} :
    sofar ≤ depthOfEntries sofar entries ∧
      ∀ entry ∈ entries, entry.2.depth ≤ depthOfEntries sofar entries := by
  induction entries generalizing sofar with
  | nil => simp [depthOfEntries]
  | cons first rest ih =>
      obtain ⟨name, value⟩ := first
      rw [depthOfEntries]
      obtain ⟨hsofar, hrest⟩ := @ih (max sofar value.depth)
      refine ⟨by omega, fun entry hentry => ?_⟩
      rcases List.mem_cons.mp hentry with rfl | hentry
      · dsimp only
        omega
      · exact hrest entry hentry

/-- What lies inside a value is less deep. -/
theorem depth_lt_of_mem_inner (h : held ∈ value.inner) : held.depth < value.depth := by
  cases value with
  | array items => exact Nat.lt_succ_of_le (le_depthOfItems.2 held h)
  | object entries =>
      obtain ⟨entry, hentry, rfl⟩ := List.mem_map.mp (show held ∈ entries.map Prod.snd from h)
      exact Nat.lt_succ_of_le (le_depthOfEntries.2 entry hentry)
  | _ => exact absurd h (by simp [inner])

theorem depthOfItems_le {sofar bound : Nat} {items : List Json} (hsofar : sofar ≤ bound)
    (hitems : ∀ item ∈ items, item.depth ≤ bound) : depthOfItems sofar items ≤ bound := by
  induction items generalizing sofar with
  | nil => exact hsofar
  | cons first rest ih =>
      rw [depthOfItems]
      exact ih (Nat.max_le.mpr ⟨hsofar, hitems first List.mem_cons_self⟩)
        fun item hitem => hitems item (List.mem_cons_of_mem _ hitem)

theorem depthOfEntries_le {sofar bound : Nat} {entries : Entries} (hsofar : sofar ≤ bound)
    (hentries : ∀ entry ∈ entries, entry.2.depth ≤ bound) :
    depthOfEntries sofar entries ≤ bound := by
  induction entries generalizing sofar with
  | nil => exact hsofar
  | cons first rest ih =>
      obtain ⟨key, value⟩ := first
      rw [depthOfEntries]
      exact ih (Nat.max_le.mpr ⟨hsofar, hentries (key, value) List.mem_cons_self⟩)
        fun entry hentry => hentries entry (List.mem_cons_of_mem _ hentry)

/-- A container is one deeper than the deepest value in it. -/
theorem depth_array_le {items : List Json} {bound : Nat}
    (h : ∀ item ∈ items, item.depth ≤ bound) : (array items).depth ≤ bound + 1 :=
  Nat.succ_le_succ (depthOfItems_le (Nat.zero_le _) h)

theorem depth_object_le {entries : Entries} {bound : Nat}
    (h : ∀ entry ∈ entries, entry.2.depth ≤ bound) : (object entries).depth ≤ bound + 1 :=
  Nat.succ_le_succ (depthOfEntries_le (Nat.zero_le _) h)

/-! ## Anywhere inside -/

/-- A value is another one or lies inside it, at any depth. -/
inductive Contains : Json → Json → Prop
  | self (value : Json) : Contains value value
  | inside {value held found : Json} (h : held ∈ value.inner) (rest : Contains held found) :
      Contains value found

theorem contains_iff :
    value.Contains found ↔ found = value ∨ ∃ held ∈ value.inner, held.Contains found := by
  constructor
  · intro h
    cases h with
    | self => exact Or.inl rfl
    | inside h rest => exact Or.inr ⟨_, h, rest⟩
  · rintro (rfl | ⟨held, h, rest⟩)
    · exact .self _
    · exact .inside h rest

/-- No object in a value repeats a key. -/
def HasDistinctKeys (value : Json) : Prop :=
  ∀ entries, value.Contains (.object entries) → (Entries.keys entries).Nodup

/-- Every number in a value reads back. -/
def NumbersReadBack (value : Json) : Prop :=
  ∀ n, value.Contains (.number n) → n.ReadsBack

theorem HasDistinctKeys.inner (h : value.HasDistinctKeys) (hheld : held ∈ value.inner) :
    held.HasDistinctKeys :=
  fun entries hentries => h entries (.inside hheld hentries)

theorem NumbersReadBack.inner (h : value.NumbersReadBack) (hheld : held ∈ value.inner) :
    held.NumbersReadBack :=
  fun n hn => h n (.inside hheld hn)

theorem HasDistinctKeys.keys {entries : Entries} (h : (object entries).HasDistinctKeys) :
    (Entries.keys entries).Nodup :=
  h entries (.self _)

@[simp] theorem hasDistinctKeys_array {items : List Json} :
    (array items).HasDistinctKeys ↔ ∀ item ∈ items, item.HasDistinctKeys := by
  constructor
  · exact fun h item hitem => h.inner hitem
  · intro h entries hentries
    rcases contains_iff.mp hentries with hsame | ⟨item, hitem, hrest⟩
    · exact absurd hsame (by simp)
    · exact h item hitem entries hrest

@[simp] theorem hasDistinctKeys_object {entries : Entries} :
    (object entries).HasDistinctKeys ↔
      (Entries.keys entries).Nodup ∧ ∀ entry ∈ entries, entry.2.HasDistinctKeys := by
  constructor
  · exact fun h => ⟨h.keys, fun entry hentry => h.inner (List.mem_map_of_mem hentry)⟩
  · rintro ⟨hkeys, hvalues⟩ found hfound
    rcases contains_iff.mp hfound with hsame | ⟨held, hheld, hrest⟩
    · cases hsame
      exact hkeys
    · obtain ⟨entry, hentry, rfl⟩ := List.mem_map.mp (show held ∈ entries.map Prod.snd from hheld)
      exact hvalues entry hentry found hrest

/-- A value that is no container repeats no key. -/
theorem hasDistinctKeys_of_inner_eq_nil (hinner : value.inner = [])
    (hobject : ∀ entries, value ≠ .object entries) : value.HasDistinctKeys := by
  intro entries hentries
  rcases contains_iff.mp hentries with hsame | ⟨held, hheld, -⟩
  · exact absurd hsame.symm (hobject entries)
  · exact absurd hheld (by simp [hinner])

@[simp] theorem hasDistinctKeys_null : null.HasDistinctKeys :=
  hasDistinctKeys_of_inner_eq_nil rfl (by simp)

@[simp] theorem hasDistinctKeys_bool (value : Bool) : (bool value).HasDistinctKeys :=
  hasDistinctKeys_of_inner_eq_nil rfl (by simp)

@[simp] theorem hasDistinctKeys_number (n : Number) : (number n).HasDistinctKeys :=
  hasDistinctKeys_of_inner_eq_nil rfl (by simp)

@[simp] theorem hasDistinctKeys_string (text : String) : (string text).HasDistinctKeys :=
  hasDistinctKeys_of_inner_eq_nil rfl (by simp)

@[simp] theorem hasDistinctKeys_ofInt (i : Int) : (ofInt i).HasDistinctKeys := by
  unfold ofInt
  split <;> simp

@[simp] theorem hasDistinctKeys_ofNat (n : Nat) : (ofNat n).HasDistinctKeys :=
  hasDistinctKeys_ofInt n

/-- Where the value itself is no number, what matters is inside it. -/
theorem numbersReadBack_iff (hnumber : ∀ n, value ≠ .number n) :
    value.NumbersReadBack ↔ ∀ held ∈ value.inner, held.NumbersReadBack := by
  constructor
  · exact fun h held hheld => h.inner hheld
  · intro h n hn
    rcases contains_iff.mp hn with hsame | ⟨held, hheld, hrest⟩
    · exact absurd hsame.symm (hnumber n)
    · exact h held hheld n hrest

@[simp] theorem numbersReadBack_array {items : List Json} :
    (array items).NumbersReadBack ↔ ∀ item ∈ items, item.NumbersReadBack :=
  numbersReadBack_iff (by simp)

@[simp] theorem numbersReadBack_object {entries : Entries} :
    (object entries).NumbersReadBack ↔ ∀ entry ∈ entries, entry.2.NumbersReadBack := by
  rw [numbersReadBack_iff (by simp)]
  constructor
  · exact fun h entry hentry => h entry.2 (List.mem_map_of_mem hentry)
  · intro h held hheld
    obtain ⟨entry, hentry, rfl⟩ := List.mem_map.mp (show held ∈ entries.map Prod.snd from hheld)
    exact h entry hentry

@[simp] theorem numbersReadBack_null : null.NumbersReadBack :=
  (numbersReadBack_iff (by simp)).mpr (by simp [inner])

@[simp] theorem numbersReadBack_bool (value : Bool) : (bool value).NumbersReadBack :=
  (numbersReadBack_iff (by simp)).mpr (by simp [inner])

@[simp] theorem numbersReadBack_string (text : String) : (string text).NumbersReadBack :=
  (numbersReadBack_iff (by simp)).mpr (by simp [inner])

@[simp] theorem numbersReadBack_number {n : Number} :
    (number n).NumbersReadBack ↔ n.ReadsBack := by
  constructor
  · exact fun h => h n (.self _)
  · intro h other hother
    rcases contains_iff.mp hother with hsame | ⟨held, hheld, -⟩
    · cases hsame
      exact h
    · exact absurd hheld (by simp [inner])

@[simp] theorem numbersReadBack_ofInt (i : Int) : (ofInt i).NumbersReadBack := by
  unfold ofInt
  split
  · exact numbersReadBack_number.mpr (Number.readsBack_integer _ _)
  · simp

@[simp] theorem numbersReadBack_ofNat (n : Nat) : (ofNat n).NumbersReadBack :=
  numbersReadBack_ofInt n

end Json
end LiveSchema
