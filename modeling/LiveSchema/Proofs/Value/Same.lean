import LiveSchema.Proofs.Value.Reached

/-!
# Values that are the same but for the order of their entries

Objects hold values under keys, and the order of the keys carries no meaning.  `Json.Like` compares
values with or without regard to this order: with it, only equal values are alike.  Walks that put
alike answers in the place of the children of a value make alike values.
-/

namespace LiveSchema

universe u v

/-! ## Lists in some order -/

/-- Two lists have the same items, and if `strict` holds, in the same order. -/
structure SameItems {α : Type u} (strict : Prop) (first second : List α) : Prop where
  perm : first.Perm second
  order : strict → first = second

namespace SameItems

variable {α : Type u} {β : Type v} {strict : Prop} {first second : List α}

theorem of_eq (h : first = second) : SameItems strict first second :=
  ⟨.of_eq h, fun _ => h⟩

/-- Without an order to keep, a permutation is enough. -/
theorem of_perm (h : first.Perm second) : SameItems False first second :=
  ⟨h, False.elim⟩

theorem mem_iff (h : SameItems strict first second) {a : α} : a ∈ first ↔ a ∈ second :=
  h.perm.mem_iff

theorem flatMap (h : SameItems strict first second) {f g : α → List β}
    (hparts : ∀ a ∈ second, SameItems strict (f a) (g a)) :
    SameItems strict (first.flatMap f) (second.flatMap g) := by
  refine ⟨h.perm.flatMap fun a ha => (hparts a (h.mem_iff.mp ha)).perm, fun hstrict => ?_⟩
  rw [h.order hstrict]
  exact List.flatMap_congr fun a ha => (hparts a ha).order hstrict

theorem map (h : SameItems strict first second) (f : α → β) :
    SameItems strict (first.map f) (second.map f) :=
  ⟨h.perm.map f, fun hstrict => congrArg (List.map f) (h.order hstrict)⟩

theorem cons (a : α) (h : SameItems strict first second) :
    SameItems strict (a :: first) (a :: second) :=
  ⟨h.perm.cons a, fun hstrict => congrArg (List.cons a) (h.order hstrict)⟩

end SameItems

/-! ## Values -/

namespace Json

/-- The values are equal but for the order of entries of objects, and if `strict` holds, they are
equal. -/
inductive Like (strict : Prop) : Json → Json → Prop
  | refl (value : Json) : Like strict value value
  | array {first second : List Json} (length : first.length = second.length)
      (items : ∀ (index : Nat) a b, first[index]? = some a → second[index]? = some b → Like strict a b) :
      Like strict (.array first) (.array second)
  | object {first second : Entries} (distinct : (Entries.keys first).Nodup)
      (keys : SameItems strict (Entries.keys first) (Entries.keys second))
      (values : ∀ key a b, Entries.value? first key = some a → Entries.value? second key = some b →
        Like strict a b) :
      Like strict (.object first) (.object second)

/-- The values are equal but for the order of entries of objects. -/
abbrev Same : Json → Json → Prop :=
  Like False

/-- Values that are alike with regard to the order are equal. -/
theorem Like.eq {first second : Json} (h : Like True first second) : first = second := by
  induction h with
  | refl value => rfl
  | @array first second hlength _ ih =>
      refine congrArg Json.array (List.ext_getElem? fun index => ?_)
      cases ha : first[index]? with
      | none =>
          rw [List.getElem?_eq_none_iff] at ha
          exact (List.getElem?_eq_none_iff.mpr (hlength ▸ ha)).symm
      | some a =>
          have hbound := (List.getElem?_eq_some_iff.mp ha).1
          have hb := List.getElem?_eq_getElem (hlength ▸ hbound)
          rw [hb, ih index a _ ha hb]
  | @object first second hdistinct hkeys _ ih =>
      have hsame := hkeys.order trivial
      refine congrArg Json.object (Entries.ext_value? hdistinct hsame fun key => ?_)
      cases ha : Entries.value? first key with
      | none =>
          rw [Entries.value?_eq_none_iff, hsame] at ha
          exact (Entries.value?_eq_none_iff.mpr ha).symm
      | some a =>
          have hkey := Entries.exists_value?_iff.mp ⟨a, ha⟩
          obtain ⟨b, hb⟩ := Entries.exists_value?_iff.mpr (hsame ▸ hkey)
          rw [hb, ih key a b ha hb]

theorem Like.map_array {α : Type u} {strict : Prop} {list : List α} {f g : α → Json}
    (h : ∀ a ∈ list, Like strict (f a) (g a)) :
    Like strict (.array (list.map f)) (.array (list.map g)) := by
  refine .array (by simp) fun index a b ha hb => ?_
  rw [List.getElem?_map, Option.map_eq_some_iff] at ha hb
  obtain ⟨item, hitem, rfl⟩ := ha
  obtain ⟨item', hitem', rfl⟩ := hb
  obtain rfl := Option.some.inj (hitem.symm.trans hitem')
  exact h item (List.mem_of_getElem? hitem)

theorem Like.cons_array {strict : Prop} {a b : Json} {first second : List Json}
    (h : Like strict a b) (hrest : Like strict (.array first) (.array second)) :
    Like strict (.array (a :: first)) (.array (b :: second)) := by
  have hparts : first.length = second.length ∧ ∀ (index : Nat) a b, first[index]? = some a →
      second[index]? = some b → Like strict a b := by
    cases hrest with
    | refl => exact ⟨rfl, fun _ x y hx hy => Option.some.inj (hx.symm.trans hy) ▸ .refl x⟩
    | array hlength hitems => exact ⟨hlength, hitems⟩
  refine .array (by simp [hparts.1]) fun index x y hx hy => ?_
  cases index with
  | zero =>
      rw [List.getElem?_cons_zero, Option.some.injEq] at hx hy
      exact hx ▸ hy ▸ h
  | succ index => exact hparts.2 index x y hx hy

end Json

/-! ## Answers in the place of children -/

namespace Parts

variable {strict : Prop} {f g : TypeReference → Json → Json} {value : Json}

theorem like_mapPair {key mapped : TypeReference} {pair : Json} (index : Nat)
    (h : ∀ child ∈ childrenOfPair key mapped index pair,
      Json.Like strict (f child.type child.value) (g child.type child.value)) :
    Json.Like strict (mapPair f key mapped pair) (mapPair g key mapped pair) := by
  cases pair with
  | array stored =>
      rcases stored with _ | ⟨first, _ | ⟨second, surplus⟩⟩
      · exact .refl _
      · exact (h _ (List.mem_singleton_self _)).cons_array (.refl _)
      · have hmapped := h ⟨mapped, .mapValue index, second⟩
          (List.mem_cons_of_mem _ List.mem_cons_self)
        exact (h ⟨key, .mapKey index, first⟩ List.mem_cons_self).cons_array
          (hmapped.cons_array (.refl _))
  | _ => exact .refl _

/-- Alike answers in the place of the children make alike values.  Fields are left out, because their
order is that of the record. -/
theorem like_mapChildren {parts : Parts} (hparts : ∀ declared entries, parts ≠ .fields declared entries)
    (h : ∀ child ∈ parts.children value,
      Json.Like strict (f child.type child.value) (g child.type child.value)) :
    Json.Like strict (parts.mapChildren f value) (parts.mapChildren g value) := by
  cases parts with
  | none => exact .refl value
  | fields declared entries => exact absurd rfl (hparts declared entries)
  | items element stored =>
      refine .map_array fun item hitem => ?_
      obtain ⟨index, hindex⟩ := List.mem_iff_getElem?.mp hitem
      exact h ⟨element, .index index, item⟩
        (List.mem_map.mpr ⟨(item, index), List.mem_zipIdx_iff_getElem?.mpr hindex, rfl⟩)
  | payload alternative index held =>
      have hheld := h ⟨alternative, .payload, held⟩ (List.mem_singleton_self _)
      exact (Json.Like.refl index).cons_array (hheld.cons_array (.refl _))
  | pointee target => exact h ⟨target, .pointee, value⟩ (List.mem_singleton_self _)
  | pairs key mapped stored =>
      refine .map_array fun pair hpair => ?_
      obtain ⟨index, hindex⟩ := List.mem_iff_getElem?.mp hpair
      refine like_mapPair index fun child hchild => h child ?_
      exact List.mem_flatMap.mpr ⟨(pair, index), List.mem_zipIdx_iff_getElem?.mpr hindex, hchild⟩

end Parts
end LiveSchema
