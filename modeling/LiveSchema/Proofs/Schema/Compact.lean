import LiveSchema.Proofs.Schema.Edits

/-!
# Registries without deleted types

A registry can be built anew from its user types in declaration order.  The built-in types keep their
places, the places of deleted types are left out, and every reference is moved along.
-/

namespace LiveSchema

namespace TypeDefinition

variable {definition : TypeDefinition} {ρ : TypeHandle → TypeHandle}

@[simp]
theorem relocate_name : (definition.relocate ρ).name = definition.name := rfl

theorem relocate_outline : (definition.relocate ρ).outline = definition.outline := by
  obtain ⟨name, base, parameters, body⟩ := definition
  cases body <;> rfl

end TypeDefinition

namespace Registry

variable {registry other : Registry} {handle : TypeHandle} {definition : TypeDefinition}
  {types : List TypeDefinition} {ρ : TypeHandle → TypeHandle} {index : Nat}

/-! ## User types -/

/-- The definitions of the user types, in declaration order. -/
def userDefinitions (registry : Registry) : List TypeDefinition :=
  registry.userTypes.filterMap registry.get?

theorem mem_userTypes : handle ∈ registry.userTypes ↔
    ∃ definition, registry.get? handle = some definition ∧ definition.isBuiltin = false := by
  rw [userTypes, List.mem_filter, mem_handles, isLive_iff]
  constructor
  · rintro ⟨⟨definition, hfound⟩, huser⟩
    exact ⟨definition, hfound, by simpa [hfound] using huser⟩
  · rintro ⟨definition, hfound, huser⟩
    exact ⟨⟨definition, hfound⟩, by simp [hfound, huser]⟩

theorem nodup_userTypes (registry : Registry) : registry.userTypes.Nodup :=
  registry.nodup_handles.filter _

theorem map_get?_userTypes (registry : Registry) :
    registry.userTypes.map registry.get? = registry.userDefinitions.map some := by
  have hlive : ∀ handle ∈ registry.userTypes, (registry.get? handle).isSome = true := by
    intro handle hmem
    obtain ⟨definition, hfound, -⟩ := mem_userTypes.mp hmem
    simp [hfound]
  rw [userDefinitions]
  generalize registry.userTypes = handles at hlive
  induction handles with
  | nil => rfl
  | cons first rest ih =>
      obtain ⟨definition, hfound⟩ := Option.isSome_iff_exists.mp (hlive first List.mem_cons_self)
      have hrest := ih fun handle hmem => hlive handle (List.mem_cons_of_mem _ hmem)
      simpa [hfound] using hrest

theorem length_userDefinitions (registry : Registry) :
    registry.userDefinitions.length = registry.userTypes.length := by
  simpa using (congrArg List.length registry.map_get?_userTypes).symm

/-- The user types and their definitions stand in the same order. -/
theorem getElem?_userDefinitions :
    registry.userDefinitions[index]? = some definition ↔
      ∃ handle, registry.userTypes[index]? = some handle ∧
        registry.get? handle = some definition := by
  have h := congrArg (fun list => list[index]?) registry.map_get?_userTypes
  simp only [List.getElem?_map] at h
  constructor
  · intro hdefinition
    rw [hdefinition, Option.map_some, Option.map_eq_some_iff] at h
    exact h
  · rintro ⟨handle, hhandle, hfound⟩
    rw [hhandle, Option.map_some, hfound] at h
    simpa using h.symm

theorem Formed.isBuiltin_iff (hformed : registry.Formed)
    (hfound : registry.get? handle = some definition) :
    definition.isBuiltin = true ↔ handle.index < Builtin.all.length := by
  constructor
  · intro hbuiltin
    obtain ⟨builtin, hbody⟩ := TypeDefinition.isBuiltin_iff.mp hbuiltin
    exact (List.getElem?_eq_some_iff.mp (hformed.places handle definition builtin hfound hbody)).1
  · intro hlt
    have hplace := hformed.builtins handle.index _ (List.getElem?_eq_getElem hlt)
    rw [Option.some.inj (hfound.symm.trans hplace)]
    rfl

/-! ## Registries of given types -/

/-- The registry of the built-in types and the given types behind them. -/
def ofTypes (types : List TypeDefinition) : Registry :=
  ⟨initial.definitions ++ (types.map some).toArray⟩

/-- The place behind the built-in types. -/
def userPlace (index : Nat) : TypeHandle := ⟨Builtin.all.length + index⟩

theorem ofTypes_nil : ofTypes [] = initial := by
  simp [ofTypes]

theorem size_initial : initial.definitions.size = Builtin.all.length := by
  simp [initial]

theorem declare_ofTypes (added : TypeDefinition) :
    (ofTypes types).declare added = ofTypes (types ++ [added]) := by
  simp [ofTypes, declare]

theorem get?_ofTypes_of_lt (hlt : handle.index < Builtin.all.length) :
    (ofTypes types).get? handle = initial.get? handle := by
  have hplace : handle.index < initial.definitions.size := size_initial ▸ hlt
  rw [get?_eq_join, get?_eq_join, ofTypes, Array.getElem?_append_left hplace]

@[simp]
theorem get?_ofTypes_userPlace : (ofTypes types).get? (userPlace index) = types[index]? := by
  have hplace : initial.definitions.size ≤ (userPlace index).index :=
    size_initial ▸ Nat.le_add_right _ _
  have hbehind : (userPlace index).index - initial.definitions.size = index := by
    rw [size_initial, userPlace, Nat.add_sub_cancel_left]
  rw [get?_eq_join, ofTypes, Array.getElem?_append_right hplace, hbehind]
  cases hfound : types[index]? with
  | none => simp [hfound]
  | some definition => simp [hfound]

theorem eq_userPlace_of_le (hle : Builtin.all.length ≤ handle.index) :
    handle = userPlace (handle.index - Builtin.all.length) := by
  rw [userPlace, Nat.add_sub_cancel' hle]

theorem modify_ofTypes (hfound : types[index]? = some definition)
    (f : TypeDefinition → TypeDefinition) :
    (ofTypes types).modify (userPlace index) f = ofTypes (types.set index (f definition)) := by
  have hplace : initial.definitions.size ≤ (userPlace index).index :=
    size_initial ▸ Nat.le_add_right _ _
  rw [modify, get?_ofTypes_userPlace, hfound]
  refine get?_ext (Array.toList_inj.mp ?_)
  simp [ofTypes, userPlace, List.set_append_right, List.map_set, initial]

/-- The user types of a registry of given types stand behind the built-in ones. -/
theorem userTypes_ofTypes (huser : ∀ definition ∈ types, definition.isBuiltin = false) :
    (ofTypes types).userTypes = (List.range types.length).map userPlace := by
  have hsize : (ofTypes types).definitions.size = Builtin.all.length + types.length := by
    simp [ofTypes, initial]
  have hbuiltin : ∀ handle ∈ ((List.range Builtin.all.length).map TypeHandle.mk).filter
      (ofTypes types).isLive, ¬ ((ofTypes types).get? handle).any (fun d => !d.isBuiltin) = true := by
    intro handle hmem
    obtain ⟨place, hplace, rfl⟩ := List.mem_map.mp (List.mem_filter.mp hmem).1
    rw [get?_ofTypes_of_lt (List.mem_range.mp hplace), get?_initial]
    simp [List.getElem?_eq_getElem (List.mem_range.mp hplace), TypeDefinition.isBuiltin,
      TypeDefinition.builtin?, TypeDefinition.ofBuiltin]
  have hfound : ∀ handle ∈ (List.range types.length).map userPlace, ∃ definition ∈ types,
      (ofTypes types).get? handle = some definition := by
    intro handle hmem
    obtain ⟨place, hplace, rfl⟩ := List.mem_map.mp hmem
    have hlt := List.mem_range.mp hplace
    exact ⟨types[place], List.getElem_mem hlt, by
      rw [get?_ofTypes_userPlace, List.getElem?_eq_getElem hlt]⟩
  have hplaces : (List.range (Builtin.all.length + types.length)).map TypeHandle.mk =
      (List.range Builtin.all.length).map TypeHandle.mk ++
        (List.range types.length).map userPlace := by
    rw [List.range_add, List.map_append, List.map_map]
    rfl
  rw [userTypes, handles, hsize, hplaces, List.filter_append, List.filter_append,
    List.filter_eq_nil_iff.mpr hbuiltin, List.nil_append, List.filter_eq_self.mpr,
    List.filter_eq_self.mpr]
  · intro handle hmem
    obtain ⟨definition, -, hdefinition⟩ := hfound handle hmem
    exact isLive_iff.mpr ⟨definition, hdefinition⟩
  · intro handle hmem
    obtain ⟨definition, hin, hdefinition⟩ := hfound handle (List.mem_filter.mp hmem).1
    simp [hdefinition, huser definition hin]

/-! ## The registry of the live types -/

/-- The place of a type once the places of deleted types are left out. -/
def compactPlace (registry : Registry) (handle : TypeHandle) : TypeHandle :=
  if handle.index < Builtin.all.length then handle
  else userPlace (registry.userTypes.idxOf handle)

/-- The registry without the places of deleted types. -/
def compact (registry : Registry) : Registry :=
  ofTypes (registry.userDefinitions.map (TypeDefinition.relocate registry.compactPlace))

theorem Formed.compactPlace_userType (hformed : registry.Formed)
    (hhandle : registry.userTypes[index]? = some handle) :
    registry.compactPlace handle = userPlace index := by
  obtain ⟨hlt, rfl⟩ := List.getElem?_eq_some_iff.mp hhandle
  obtain ⟨definition, hfound, huser⟩ := mem_userTypes.mp (List.getElem_mem hlt)
  have hbehind : ¬ (registry.userTypes[index]).index < Builtin.all.length := by
    rw [← hformed.isBuiltin_iff hfound, huser]
    exact Bool.false_ne_true
  rw [compactPlace, if_neg hbehind, registry.nodup_userTypes.idxOf_getElem]

/-- A live type is built in and stays, or it is one of the user types and stands at its number. -/
theorem Formed.compactPlace_cases (hformed : registry.Formed)
    (hfound : registry.get? handle = some definition) :
    (∃ builtin, definition = .ofBuiltin builtin ∧ registry.compactPlace handle = handle ∧
        ∀ types, (ofTypes types).get? handle = some definition) ∨
      ∃ index, registry.userDefinitions[index]? = some definition ∧
        registry.compactPlace handle = userPlace index := by
  by_cases hlt : handle.index < Builtin.all.length
  · have hbuiltin := List.getElem?_eq_getElem hlt
    have hplace := hformed.builtins handle.index _ hbuiltin
    obtain rfl := Option.some.inj (hfound.symm.trans hplace)
    refine .inl ⟨_, rfl, if_pos hlt, fun types => ?_⟩
    rw [get?_ofTypes_of_lt hlt, get?_initial, hbuiltin, Option.map_some]
  · have huser : definition.isBuiltin = false := by
      rw [← Bool.not_eq_true, hformed.isBuiltin_iff hfound]
      exact hlt
    obtain ⟨index, hindex⟩ :=
      List.mem_iff_getElem?.mp (mem_userTypes.mpr ⟨definition, hfound, huser⟩)
    exact .inr ⟨index, getElem?_userDefinitions.mpr ⟨handle, hindex, hfound⟩,
      hformed.compactPlace_userType hindex⟩

theorem Formed.userTypes_compact (hformed : registry.Formed) :
    registry.compact.userTypes = registry.userTypes.map registry.compactPlace := by
  have huser : ∀ definition ∈
      registry.userDefinitions.map (TypeDefinition.relocate registry.compactPlace),
      definition.isBuiltin = false := by
    intro moved hmoved
    obtain ⟨definition, hmem, rfl⟩ := List.mem_map.mp hmoved
    obtain ⟨place, hplace⟩ := List.mem_iff_getElem?.mp hmem
    obtain ⟨handle, hhandle, hfound⟩ := getElem?_userDefinitions.mp hplace
    obtain ⟨found, hfound', hfree⟩ := mem_userTypes.mp (List.mem_of_getElem? hhandle)
    obtain rfl := Option.some.inj (hfound.symm.trans hfound')
    have hsame : (definition.relocate registry.compactPlace).builtin? = definition.builtin? :=
      congrArg Outline.builtin TypeDefinition.relocate_outline
    rw [TypeDefinition.isBuiltin, hsame]
    exact hfree
  rw [compact, userTypes_ofTypes huser, List.length_map, length_userDefinitions]
  refine List.ext_getElem (by simp) fun place hplace hplace' => ?_
  have hlt : place < registry.userTypes.length := by simpa using hplace
  rw [List.getElem_map, List.getElem_map, List.getElem_range,
    hformed.compactPlace_userType (List.getElem?_eq_getElem hlt)]

/-! ## Mirrors -/

/-- Another registry has the same types under the same names, though maybe at other places and with
other contents. -/
structure Mirrors (registry other : Registry) (ρ : TypeHandle → TypeHandle) : Prop where
  forth : ∀ handle definition, registry.get? handle = some definition →
    ∃ image, other.get? (ρ handle) = some image ∧ image.name = definition.name ∧
      image.outline = definition.outline
  back : ∀ place image, other.get? place = some image →
    ∃ handle definition, registry.get? handle = some definition ∧ ρ handle = place ∧
      definition.name = image.name

theorem Mirrors.resolve? (hmirrors : registry.Mirrors other ρ) (hwf : registry.WellFormed)
    (hfound : registry.get? handle = some definition) :
    other.resolve? definition.name = some (ρ handle) := by
  cases hresolved : other.resolve? definition.name with
  | none =>
      obtain ⟨image, himage, hname, -⟩ := hmirrors.forth handle definition hfound
      exact absurd hname (resolve?_eq_none.mp hresolved (ρ handle) image himage)
  | some place =>
      obtain ⟨image, himage, hname⟩ := exists_of_resolve? hresolved
      obtain ⟨source, origin, horigin, rfl, hsame⟩ := hmirrors.back place image himage
      rw [hwf.typeNames source handle origin definition horigin hfound (hsame.trans hname)]

theorem Mirrors.legal (hmirrors : registry.Mirrors other ρ) {reference : TypeReference}
    (hlegal : registry.Legal reference) : other.Legal (reference.relocate ρ) := by
  refine hlegal.relocate fun handle hmentions => ?_
  obtain ⟨definition, hfound⟩ := hlegal.get?_of_mentions hmentions
  obtain ⟨image, himage, -, houtline⟩ := hmirrors.forth handle definition hfound
  rw [outline?, outline?, hfound, himage, Option.map_some, Option.map_some, houtline]

/-- A registry is mirrored by the registry of any types that have the names and the outlines of its
user types. -/
theorem Formed.mirrors_ofTypes (hformed : registry.Formed)
    (hsame : types.map (fun d => (d.name, d.outline)) =
      registry.userDefinitions.map fun d => (d.name, d.outline)) :
    registry.Mirrors (ofTypes types) registry.compactPlace where
  forth handle definition hfound := by
    obtain ⟨_, -, hplace, hstays⟩ | ⟨index, hindex, hplace⟩ :=
      hformed.compactPlace_cases hfound
    · refine ⟨definition, ?_, rfl, rfl⟩
      rw [hplace, hstays]
    · have hpair := congrArg (fun list => list[index]?) hsame
      simp only [List.getElem?_map, hindex, Option.map_some, Option.map_eq_some_iff] at hpair
      obtain ⟨image, himage, hpair⟩ := hpair
      refine ⟨image, ?_, congrArg Prod.fst hpair, congrArg Prod.snd hpair⟩
      rw [hplace, get?_ofTypes_userPlace, himage]
  back place image himage := by
    by_cases hlt : place.index < Builtin.all.length
    · have hplace := hformed.builtins place.index _ (List.getElem?_eq_getElem hlt)
      rw [get?_ofTypes_of_lt hlt, get?_initial, List.getElem?_eq_getElem hlt] at himage
      refine ⟨place, image, ?_, if_pos hlt, rfl⟩
      rw [← himage]
      exact hplace
    · rw [eq_userPlace_of_le (Nat.le_of_not_lt hlt), get?_ofTypes_userPlace] at himage
      have hpair := congrArg (fun list => list[place.index - Builtin.all.length]?) hsame
      simp only [List.getElem?_map, himage, Option.map_some] at hpair
      obtain ⟨definition, hdefinition, hpair⟩ := Option.map_eq_some_iff.mp hpair.symm
      obtain ⟨handle, hhandle, hfound⟩ := getElem?_userDefinitions.mp hdefinition
      refine ⟨handle, definition, hfound, ?_, congrArg Prod.fst hpair⟩
      rw [hformed.compactPlace_userType hhandle, ← eq_userPlace_of_le (Nat.le_of_not_lt hlt)]

/-! ## The same types at other places -/

/-- Another registry has the same types in the same order, at other places. -/
structure Relocates (registry other : Registry) (ρ : TypeHandle → TypeHandle) : Prop where
  order : other.userTypes = registry.userTypes.map ρ
  types : ∀ handle definition, registry.get? handle = some definition →
    other.get? (ρ handle) = some (definition.relocate ρ)
  live : ∀ place, other.isLive place = true → ∃ handle, registry.isLive handle = true ∧
    ρ handle = place
  injective : ∀ a b, registry.isLive a = true → registry.isLive b = true → ρ a = ρ b → a = b

theorem Formed.mirrors_compact (hformed : registry.Formed) :
    registry.Mirrors registry.compact registry.compactPlace := by
  refine hformed.mirrors_ofTypes ?_
  rw [List.map_map]
  exact List.map_congr_left fun definition _ =>
    congrArg (Prod.mk definition.name) TypeDefinition.relocate_outline

theorem Formed.get?_compact (hformed : registry.Formed)
    (hfound : registry.get? handle = some definition) :
    registry.compact.get? (registry.compactPlace handle) =
      some (definition.relocate registry.compactPlace) := by
  obtain ⟨builtin, rfl, hplace, hsame⟩ | ⟨index, hindex, hplace⟩ :=
    hformed.compactPlace_cases hfound
  · rw [hplace, compact, hsame]
    rfl
  · rw [hplace, compact, get?_ofTypes_userPlace, List.getElem?_map, hindex, Option.map_some]

theorem WellFormed.relocates_compact (hwf : registry.WellFormed) :
    registry.Relocates registry.compact registry.compactPlace where
  order := hwf.toFormed.userTypes_compact
  types handle definition hfound := hwf.toFormed.get?_compact hfound
  live place hlive := by
    obtain ⟨image, himage⟩ := isLive_iff.mp hlive
    obtain ⟨handle, definition, hfound, hplace, -⟩ :=
      hwf.toFormed.mirrors_compact.back place image himage
    exact ⟨handle, isLive_iff.mpr ⟨definition, hfound⟩, hplace⟩
  injective a b ha hb hsame := by
    obtain ⟨first, hfirst⟩ := isLive_iff.mp ha
    obtain ⟨second, hsecond⟩ := isLive_iff.mp hb
    have himage := hwf.toFormed.get?_compact hfirst
    rw [hsame, hwf.toFormed.get?_compact hsecond, Option.some.injEq] at himage
    exact hwf.typeNames a b first second hfirst hsecond
      (congrArg TypeDefinition.name himage).symm

end Registry
end LiveSchema
