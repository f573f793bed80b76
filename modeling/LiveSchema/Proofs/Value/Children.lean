import LiveSchema.Proofs.Value.Same

/-!
# Changing a value child by child

Changing every child where it lies, one after the other, makes the same of a value as putting all
answers in the place of the children at once.  If every child is its own answer, the value stays as it
is.
-/

namespace LiveSchema

namespace Parts

variable {f : TypeReference → Json → Json} {value : Json}

/-- The value that has the given parts. -/
def whole (value : Json) : Parts → Json
  | none => value
  | fields _ entries => .object entries
  | items _ stored => .array stored
  | payload _ index held => .array [index, held]
  | pointee _ => value
  | pairs _ _ stored => .array stored

/-! ## Children that stay as they are -/

theorem mapFields_eq_self {entries : Entries} {declared : List Field}
    (h : ∀ field ∈ declared, ∀ value, Entries.value? entries field.name = some value →
      f field.type value = value) : mapFields f entries declared = entries := by
  induction declared with
  | nil => rfl
  | cons field rest ih =>
      obtain ⟨hfield, hothers⟩ := List.forall_mem_cons.mp h
      rw [mapFields]
      cases hvalue : Entries.value? entries field.name with
      | none => exact ih hothers
      | some value =>
          simp only [hfield value hvalue, Entries.assign_of_value? hvalue]
          exact ih hothers

theorem mapPair_id (key mapped : TypeReference) (pair : Json) :
    mapPair (fun _ inner => inner) key mapped pair = pair := by
  unfold mapPair
  split <;> rfl

theorem mapChildren_id (parts : Parts) (value : Json) :
    parts.mapChildren (fun _ inner => inner) value = parts.whole value := by
  cases parts with
  | none => rfl
  | fields declared entries =>
      exact congrArg Json.object (mapFields_eq_self fun _ _ _ _ => rfl)
  | items element stored => exact congrArg Json.array (List.map_id stored)
  | payload alternative index held => rfl
  | pointee target => rfl
  | pairs key mapped stored =>
      refine congrArg Json.array (Eq.trans ?_ (List.map_id stored))
      exact List.map_congr_left fun pair _ => mapPair_id key mapped pair

/-- Where every child is its own answer, nothing changes. -/
theorem mapChildren_eq_whole {parts : Parts}
    (h : ∀ child ∈ parts.children value, f child.type child.value = child.value) :
    parts.mapChildren f value = parts.whole value := by
  by_cases hfields : ∃ declared entries, parts = .fields declared entries
  · obtain ⟨declared, entries, rfl⟩ := hfields
    refine congrArg Json.object (mapFields_eq_self fun field hfield inner hinner => ?_)
    exact h ⟨field.type, .field field.name, inner⟩
      (List.mem_filterMap.mpr ⟨field, hfield, by rw [hinner, Option.map_some]⟩)
  · have hlike : Json.Like True (parts.mapChildren f value)
        (parts.mapChildren (fun _ inner => inner) value) := by
      refine like_mapChildren (fun _ _ hparts => hfields ⟨_, _, hparts⟩) ?_
      intro child hchild
      rw [h child hchild]
      exact .refl child.value
    rw [hlike.eq, mapChildren_id]

/-! ## Children that are changed one after the other -/

section ChangeEach

variable {change : Child → Json → Json}

theorem changeEach_zipIdx_append (childrenAt : Json → Nat → List Child) (answer : Json → Json)
    (done items : List Json)
    (hitem : ∀ entry ∈ items.zipIdx done.length, ∃ g,
      Child.changeEach change (childrenAt entry.1 entry.2) = Json.modifyItem entry.2 g ∧
        g entry.1 = answer entry.1) :
    Child.changeEach change ((items.zipIdx done.length).flatMap fun (item, index) =>
        childrenAt item index) (.array (done ++ items)) =
      .array (done ++ items.map answer) := by
  induction items generalizing done with
  | nil => rfl
  | cons item rest ih =>
      rw [List.zipIdx_cons] at hitem ⊢
      obtain ⟨⟨g, hchange, hanswer⟩, hothers⟩ := List.forall_mem_cons.mp hitem
      have hfirst : Child.changeEach change (childrenAt item done.length)
          (.array (done ++ item :: rest)) = .array ((done ++ [answer item]) ++ rest) := by
        rw [hchange, Json.modifyItem, List.modify_eq_take_cons_drop (by simp)]
        simp [hanswer]
      have hrest := ih (done ++ [answer item]) (by simpa using hothers)
      rw [List.length_append, List.length_singleton] at hrest
      calc Child.changeEach change _ _
        _ = Child.changeEach change
              ((rest.zipIdx (done.length + 1)).flatMap fun (item, index) => childrenAt item index)
              (Child.changeEach change (childrenAt item done.length)
                (.array (done ++ item :: rest))) := List.foldl_append
        _ = .array (done ++ (item :: rest).map answer) := by
          rw [hfirst, hrest]
          simp

/-- Where the children of each item of a list change just this item, all items get their answers. -/
theorem changeEach_zipIdx (childrenAt : Json → Nat → List Child) (answer : Json → Json)
    (items : List Json)
    (hitem : ∀ entry ∈ items.zipIdx, ∃ g,
      Child.changeEach change (childrenAt entry.1 entry.2) = Json.modifyItem entry.2 g ∧
        g entry.1 = answer entry.1) :
    Child.changeEach change (items.zipIdx.flatMap fun (item, index) => childrenAt item index)
      (.array items) = .array (items.map answer) :=
  changeEach_zipIdx_append childrenAt answer [] items hitem

theorem changeEach_pair {key mapped : TypeReference} {pair : Json} {index : Nat}
    (hanswer : ∀ child ∈ childrenOfPair key mapped index pair,
      change child child.value = f child.type child.value) :
    ∃ g, Child.changeEach change (childrenOfPair key mapped index pair) =
        Json.modifyItem index g ∧ g pair = mapPair f key mapped pair := by
  have hnone : Child.changeEach change [] = Json.modifyItem index id :=
    (Json.modifyItem_id index).symm
  cases pair with
  | array items =>
      rcases items with _ | ⟨first, _ | ⟨second, surplus⟩⟩
      · exact ⟨id, hnone, rfl⟩
      · have hkey := hanswer _ (List.mem_singleton_self _)
        exact ⟨_, rfl, congrArg (fun answer => Json.array [answer]) hkey⟩
      · obtain ⟨hkey, hmapped⟩ := List.forall_mem_cons.mp hanswer
        have hmapped := hmapped _ (List.mem_singleton_self _)
        refine ⟨_, Json.modifyItem_comp index _ _, ?_⟩
        exact congrArg₂ (fun a b => Json.array (a :: b :: surplus)) hkey hmapped
  | _ => exact ⟨id, hnone, rfl⟩

/-- Changing each child in its place puts the answers in the place of the children.  Fields are left
out, because they may hide one another. -/
theorem changeEach_children {parts : Parts}
    (hparts : ∀ declared entries, parts ≠ .fields declared entries)
    (hanswer : ∀ child ∈ parts.children value,
      change child child.value = f child.type child.value) :
    Child.changeEach change (parts.children value) (parts.whole value) =
      parts.mapChildren f value := by
  cases parts with
  | none => rfl
  | fields declared entries => exact absurd rfl (hparts declared entries)
  | items element stored =>
      rw [children, List.map_eq_flatMap]
      refine changeEach_zipIdx (fun item index => [⟨element, .index index, item⟩]) (f element) stored
        fun entry hentry => ⟨change ⟨element, .index entry.2, entry.1⟩, rfl, ?_⟩
      exact hanswer _ (List.mem_map.mpr ⟨entry, hentry, rfl⟩)
  | payload alternative index held =>
      have hheld := hanswer _ (List.mem_singleton_self _)
      exact congrArg (fun answer => Json.array [index, answer]) hheld
  | pointee target => exact hanswer _ (List.mem_singleton_self _)
  | pairs key mapped stored =>
      refine changeEach_zipIdx (fun pair index => childrenOfPair key mapped index pair)
        (mapPair f key mapped) stored fun entry hentry => ?_
      exact changeEach_pair fun child hchild =>
        hanswer child (List.mem_flatMap.mpr ⟨entry, hentry, hchild⟩)

/-- Changes behind distinct fields change the values under these keys, and nothing else. -/
theorem changeEach_object (change : Child → Json → Json) {children : List Child} (entries : Entries)
    (hfields : ∀ child ∈ children, ∃ name, child.segment = .field name)
    (hnodup : (children.map Child.segment).Nodup) :
    ∃ changed, Child.changeEach change children (.object entries) = .object changed ∧
      Entries.keys changed = Entries.keys entries ∧
      (∀ child ∈ children, ∀ name, child.segment = .field name →
        Entries.value? changed name = (Entries.value? entries name).map (change child)) ∧
      ∀ name, PathSegment.field name ∉ children.map Child.segment →
        Entries.value? changed name = Entries.value? entries name := by
  induction children generalizing entries with
  | nil => exact ⟨entries, rfl, rfl, by simp, fun _ _ => rfl⟩
  | cons first rest ih =>
      obtain ⟨⟨name, hname⟩, hrestFields⟩ := List.forall_mem_cons.mp hfields
      obtain ⟨hfresh, hrestNodup⟩ := List.nodup_cons.mp hnodup
      obtain ⟨changed, hchanged, hkeys, hinside, houtside⟩ :=
        ih (Entries.modify name (change first) entries) hrestFields hrestNodup
      refine ⟨changed, ?_, by rw [hkeys, Entries.keys_modify], fun child hchild key hkey => ?_,
        fun key hkey => ?_⟩
      · rw [← hchanged, Child.changeEach, List.foldl_cons, hname]
        rfl
      · rcases List.mem_cons.mp hchild with rfl | hchild
        · obtain rfl := PathSegment.field.inj (hname.symm.trans hkey)
          rw [houtside name (hname ▸ hfresh), Entries.value?_modify, if_pos rfl]
        · have hne : name ≠ key := by
            rintro rfl
            exact hfresh (hname ▸ hkey ▸ List.mem_map_of_mem hchild)
          rw [hinside child hchild key hkey, Entries.value?_modify, if_neg hne]
      · rw [List.map_cons, List.mem_cons, not_or] at hkey
        have hne : name ≠ key := fun hsame => hkey.1 (hsame ▸ hname.symm)
        rw [houtside key hkey.2, Entries.value?_modify, if_neg hne]

end ChangeEach
end Parts
end LiveSchema
