import LiveSchema.Project.Restore
import LiveSchema.Proofs.Checks
import LiveSchema.Proofs.NameMap
import LiveSchema.Proofs.Schema.Compact
import LiveSchema.Proofs.Schema.Words
import LiveSchema.Proofs.TypeText.Roundtrip

/-!
# Restoring types

The schema document of a registry is restored to the registry without the places of deleted types.
The types are declared one after the other and then described one after the other.  Between any two
of these steps the registry under construction has the names and the outlines that the texts need.
-/

namespace LiveSchema

/-! ## Steps in order -/

section Steps

variable {α β ε : Type} {items : List α} {answers : List β}

/-- Steps that lead from one stage to the next lead through all stages. -/
theorem foldlM_stages {step : β → α → Except ε β}
    (stage : Nat → β)
    (h : ∀ index item, items[index]? = some item →
      step (stage index) item = .ok (stage (index + 1))) :
    items.foldlM step (stage 0) = .ok (stage items.length) := by
  induction items generalizing stage with
  | nil => rfl
  | cons first rest ih =>
      rw [List.foldlM_cons, h 0 first rfl]
      exact ih (fun index => stage (index + 1)) fun index item hitem =>
        h (index + 1) item (by simpa using hitem)

theorem mapM_ok {f : α → Except ε β} {g : α → β}
    (h : ∀ item ∈ items, f item = .ok (g item)) : items.mapM f = .ok (items.map g) := by
  induction items with
  | nil => rfl
  | cons first rest ih =>
      rw [List.mapM_cons, h first List.mem_cons_self,
        ih fun item hitem => h item (List.mem_cons_of_mem _ hitem)]
      rfl

theorem exists_of_mem_mapM_ok {f : α → Except ε β} (h : items.mapM f = .ok answers) {answer : β}
    (hanswer : answer ∈ answers) : ∃ item ∈ items, f item = .ok answer := by
  induction items generalizing answers with
  | nil =>
      obtain rfl := Except.ok.inj h
      exact absurd hanswer List.not_mem_nil
  | cons first rest ih =>
      simp only [List.mapM_cons, bind_eq_ok, pure_eq_ok] at h
      obtain ⟨value, hvalue, others, hothers, rfl⟩ := h
      rcases List.mem_cons.mp hanswer with rfl | hrest
      · exact ⟨first, List.mem_cons_self, hvalue⟩
      · obtain ⟨item, hitem, hok⟩ := ih hothers hrest
        exact ⟨item, List.mem_cons_of_mem _ hitem, hok⟩

/-- What every step keeps holds after all of them. -/
theorem foldlM_keeps {step : β → α → Except ε β} (property : β → Prop)
    (hstep : ∀ state item after, property state → step state item = .ok after → property after)
    {start after : β} (hstart : property start) (h : items.foldlM step start = .ok after) :
    property after := by
  induction items generalizing start with
  | nil => exact Except.ok.inj h ▸ hstart
  | cons first rest ih =>
      rw [List.foldlM_cons, bind_eq_ok] at h
      obtain ⟨next, hnext, hrest⟩ := h
      exact ih (hstep start first next hstart hnext) hrest

end Steps

namespace Registry

variable {registry other : Registry} {ρ : TypeHandle → TypeHandle} {handle : TypeHandle}
  {definition : TypeDefinition}

/-- A mirror restores the text of a legal reference. -/
theorem Mirrors.restoreReference (hmirrors : registry.Mirrors other ρ) (hwf : registry.WellFormed)
    (hwords : registry.HasWords) {reference : TypeReference} (hlegal : registry.Legal reference)
    (owner : String) :
    other.restoreReference owner (registry.render reference) = .ok (reference.relocate ρ) := by
  have hnamed : TypeText.Named registry other ρ reference := by
    intro handle hmentions
    obtain ⟨definition, hfound⟩ := hlegal.get?_of_mentions hmentions
    rw [nameOf_of_get? hfound]
    exact ⟨hwords handle definition hfound, hmirrors.resolve? hwf hfound⟩
  have hother : Legality.referenceViolation? other (reference.relocate ρ) = none :=
    hmirrors.legal hlegal
  simp only [Registry.restoreReference, TypeText.parse_render hnamed, hother]

theorem Mirrors.restoreField (hmirrors : registry.Mirrors other ρ) (hwf : registry.WellFormed)
    (hwords : registry.HasWords) {field : Field} (hlegal : registry.Legal field.type)
    (owner : String) :
    other.restoreField owner (registry.describeField field) = .ok (field.relocate ρ) := by
  rw [Registry.restoreField, describeField, hmirrors.restoreReference hwf hwords hlegal]
  rfl

end Registry

/-! ## Descriptions -/

namespace TypeDefinition

/-- A definition that tells no more than a name and a kind. -/
def blank (definition : TypeDefinition) : TypeDefinition where
  name := definition.name
  body := match definition.body with
    | .record record => .record ⟨record.kind, [], .empty⟩
    | .enumeration _ => .enumeration ⟨[]⟩
    | .builtin builtin => .builtin builtin

theorem blank_outline {definition : TypeDefinition} (h : definition.parameters = []) :
    definition.blank.outline = definition.outline := by
  obtain ⟨name, base, parameters, body⟩ := definition
  obtain rfl : parameters = [] := h
  cases body <;> rfl

end TypeDefinition

namespace Registry

variable {registry other : Registry} {ρ : TypeHandle → TypeHandle} {handle : TypeHandle}
  {definition : TypeDefinition}

theorem modify_congr {f g : TypeDefinition → TypeDefinition}
    (hfound : registry.get? handle = some definition) (h : f definition = g definition) :
    registry.modify handle f = registry.modify handle g := by
  simp only [modify, hfound, h]

theorem describeDefinition_base :
    (registry.describeDefinition definition).base = definition.base.map registry.render := by
  obtain ⟨name, base, parameters, body⟩ := definition
  cases body <;> rfl

theorem describeDefinition_fields :
    (registry.describeDefinition definition).fields =
      definition.fields.map registry.describeField := by
  obtain ⟨name, base, parameters, body⟩ := definition
  cases body <;> rfl

/-- A mirror that has only the name and the kind of a type is told the rest of it. -/
theorem Mirrors.describeAs (hmirrors : registry.Mirrors other ρ) (hwf : registry.WellFormed)
    (hwords : registry.HasWords) (hfound : registry.get? handle = some definition)
    (huser : definition.isBuiltin = false) {place : TypeHandle}
    (hblank : other.get? place = some definition.blank) :
    other.describeAs place (registry.describeDefinition definition) =
      .ok (other.modify place fun _ => definition.relocate ρ) := by
  have hbase : (registry.describeDefinition definition).base.mapM
      (other.restoreReference (other.nameOf place)) =
        .ok (definition.base.map fun base => base.relocate ρ) := by
    rw [describeDefinition_base]
    cases hdefined : definition.base with
    | none => rfl
    | some base =>
        have hlegal := (hwf.suitable_base hfound hdefined).2.1
        rw [Option.map_some, Option.mapM_some, hmirrors.restoreReference hwf hwords hlegal]
        rfl
  have hfields : (registry.describeDefinition definition).fields.mapM
      (other.restoreField (other.nameOf place)) =
        .ok (definition.fields.map (Field.relocate ρ)) := by
    rw [describeDefinition_fields, List.mapM_map]
    refine mapM_ok fun field hfield => ?_
    have hlegal := hwf.fields handle field (ownFields_of_get? hfound ▸ hfield)
    exact hmirrors.restoreField hwf hwords hlegal _
  rw [Registry.describeAs]
  dsimp only
  rw [hbase, hfields]
  refine congrArg Except.ok (modify_congr hblank ?_)
  obtain ⟨name, base, parameters, body⟩ := definition
  cases body with
  | builtin builtin => exact absurd huser (by simp [TypeDefinition.isBuiltin, TypeDefinition.builtin?])
  | enumeration enumeration => rfl
  | record record => rfl

/-! ## Names -/

theorem map_name_userDefinitions (registry : Registry) :
    registry.userDefinitions.map TypeDefinition.name = registry.userTypes.map registry.nameOf := by
  have hnames : registry.nameOf = (fun found : Option TypeDefinition =>
      (found.map TypeDefinition.name).getD "<deleted>") ∘ registry.get? := by
    funext handle
    rw [Function.comp_apply, nameOf]
    cases registry.get? handle <;> rfl
  rw [hnames, ← List.map_map, map_get?_userTypes, List.map_map]
  rfl

theorem WellFormed.nodup_names_userDefinitions (hwf : registry.WellFormed) :
    (registry.userDefinitions.map TypeDefinition.name).Nodup := by
  rw [map_name_userDefinitions]
  refine registry.nodup_userTypes.map_on fun a ha b hb hsame => ?_
  obtain ⟨first, hfirst, -⟩ := mem_userTypes.mp ha
  obtain ⟨second, hsecond, -⟩ := mem_userTypes.mp hb
  rw [nameOf_of_get? hfirst, nameOf_of_get? hsecond] at hsame
  exact hwf.typeNames a b first second hfirst hsecond hsame

end Registry

namespace SchemaDocument

variable {registry : Registry} {definition : TypeDefinition}

/-- What a document keeps of the user types, it keeps under distinct names. -/
theorem nodup_keys_userDefinitions {α : Type} (hwf : registry.WellFormed)
    (f : TypeDefinition → α) :
    ((registry.userDefinitions.map fun d => (d.name, f d)).map Prod.fst).Nodup := by
  rw [List.map_map]
  exact hwf.nodup_names_userDefinitions

theorem get?_ofList_userDefinitions {α : Type} (hwf : registry.WellFormed)
    (f : TypeDefinition → α) (hmem : definition ∈ registry.userDefinitions) :
    (NameMap.ofList (registry.userDefinitions.map fun d => (d.name, f d))).get? definition.name =
      some (f definition) := by
  have hkeys := nodup_keys_userDefinitions hwf f
  rw [NameMap.get?_ofList hkeys, NameMap.lookup_eq_some_iff hkeys]
  exact List.mem_map.mpr ⟨definition, hmem, rfl⟩

theorem typeNames_ofRegistry (hwf : registry.WellFormed) :
    (ofRegistry registry).typeNames = registry.userDefinitions.map TypeDefinition.name := by
  have hlisted : ∀ name ∈ registry.userDefinitions.map TypeDefinition.name,
      (ofRegistry registry).variants.contains name = true := by
    intro name hname
    obtain ⟨definition, hmem, rfl⟩ := List.mem_map.mp hname
    exact Option.isSome_of_eq_some (get?_ofList_userDefinitions hwf TypeDefinition.variant hmem)
  have hall : ∀ name ∈ (ofRegistry registry).variants.names,
      name ∈ registry.userDefinitions.map TypeDefinition.name := by
    intro name hname
    have hkeys := nodup_keys_userDefinitions hwf TypeDefinition.variant
    have hkey := NameMap.mem_of_mem_names_ofList hkeys hname
    rw [List.map_map] at hkey
    exact hkey
  have horder : (ofRegistry registry).order.filter (ofRegistry registry).variants.contains =
      registry.userDefinitions.map TypeDefinition.name := List.filter_eq_self.mpr hlisted
  rw [typeNames, horder, List.filter_eq_nil_iff.mpr, List.append_nil]
  intro name hname
  simpa using hall name hname

theorem blankDefinition?_ofRegistry (hwf : registry.WellFormed)
    (hmem : definition ∈ registry.userDefinitions) (huser : definition.isBuiltin = false) :
    (ofRegistry registry).blankDefinition? definition.name = some definition.blank := by
  have hvariant : (ofRegistry registry).variants.get? definition.name = some definition.variant :=
    get?_ofList_userDefinitions hwf TypeDefinition.variant hmem
  rw [blankDefinition?, hvariant]
  obtain ⟨name, base, parameters, body⟩ := definition
  cases body with
  | builtin builtin => exact absurd huser (by simp [TypeDefinition.isBuiltin, TypeDefinition.builtin?])
  | enumeration enumeration => rfl
  | record record =>
      obtain ⟨kind, fields, flags⟩ := record
      cases kind <;> rfl

theorem userDefinition_facts (hmem : definition ∈ registry.userDefinitions) :
    definition.isBuiltin = false ∧ ∃ handle, registry.get? handle = some definition := by
  obtain ⟨index, hindex⟩ := List.mem_iff_getElem?.mp hmem
  obtain ⟨handle, hhandle, hfound⟩ := Registry.getElem?_userDefinitions.mp hindex
  obtain ⟨found, hfound', huser⟩ := Registry.mem_userTypes.mp (List.mem_of_getElem? hhandle)
  obtain rfl := Option.some.inj (hfound.symm.trans hfound')
  exact ⟨huser, handle, hfound⟩

/-! ## Declarations -/

/-- A user type differs in its name from the built-in types and from the types before it. -/
theorem resolve?_ofTypes_take (hwf : registry.WellFormed) {index : Nat}
    (hindex : registry.userDefinitions[index]? = some definition) :
    (Registry.ofTypes ((registry.userDefinitions.map TypeDefinition.blank).take index)).resolve?
      definition.name = none := by
  have hmem := List.mem_of_getElem? hindex
  obtain ⟨huser, handle, hfound⟩ := userDefinition_facts hmem
  refine Registry.resolve?_eq_none.mpr fun place image himage hsame => ?_
  by_cases hlt : place.index < Builtin.all.length
  · have hplace := hwf.builtins place.index _ (List.getElem?_eq_getElem hlt)
    rw [Registry.get?_ofTypes_of_lt hlt, Registry.get?_initial, List.getElem?_eq_getElem hlt,
      Option.map_some, Option.some.injEq] at himage
    obtain rfl := hwf.typeNames place handle _ definition hplace hfound (himage ▸ hsame)
    rw [← Option.some.inj (hplace.symm.trans hfound)] at huser
    exact absurd huser (by simp)
  · rw [Registry.eq_userPlace_of_le (Nat.le_of_not_lt hlt), Registry.get?_ofTypes_userPlace] at himage
    generalize place.index - Builtin.all.length = earlier at himage
    rw [List.getElem?_take, List.getElem?_map] at himage
    split at himage
    next hbefore =>
        obtain ⟨first, hfirst, rfl⟩ := Option.map_eq_some_iff.mp himage
        have hnames := hwf.nodup_names_userDefinitions
        have hearlier : (registry.userDefinitions.map TypeDefinition.name)[earlier]? =
            some definition.name := by
          rw [List.getElem?_map, hfirst]
          exact congrArg some hsame
        have hlater : (registry.userDefinitions.map TypeDefinition.name)[index]? =
            some definition.name := by
          rw [List.getElem?_map, hindex, Option.map_some]
        obtain ⟨hlt, -⟩ := List.getElem?_eq_some_iff.mp hearlier
        have := (List.getElem?_inj hlt hnames).mp (hearlier.trans hlater.symm)
        omega
    next => exact absurd himage (by simp)

theorem declareTypes (hwf : registry.WellFormed) :
    (registry.userDefinitions.map TypeDefinition.name).foldlM
      (ofRegistry registry).declareType Registry.initial =
        .ok (Registry.ofTypes (registry.userDefinitions.map TypeDefinition.blank)) := by
  have hstep : ∀ index name, (registry.userDefinitions.map TypeDefinition.name)[index]? = some name →
      (ofRegistry registry).declareType (Registry.ofTypes
        ((registry.userDefinitions.map TypeDefinition.blank).take index)) name =
          .ok (Registry.ofTypes
            ((registry.userDefinitions.map TypeDefinition.blank).take (index + 1))) := by
    intro index name hname
    rw [List.getElem?_map, Option.map_eq_some_iff] at hname
    obtain ⟨definition, hindex, rfl⟩ := hname
    have hmem := List.mem_of_getElem? hindex
    rw [declareType, blankDefinition?_ofRegistry hwf hmem (userDefinition_facts hmem).1]
    dsimp only
    rw [resolve?_ofTypes_take hwf hindex, if_neg (by simp), Registry.declare_ofTypes,
      List.take_add_one, List.getElem?_map, hindex]
    rfl
  have hstages := foldlM_stages (fun index => Registry.ofTypes
    ((registry.userDefinitions.map TypeDefinition.blank).take index)) hstep
  rw [List.take_zero, Registry.ofTypes_nil, List.length_map,
    List.take_of_length_le (by simp)] at hstages
  exact hstages

/-! ## The whole document -/

/-- The user types of which the first ones are described. -/
def describedTypes (registry : Registry) (count : Nat) : List TypeDefinition :=
  registry.userDefinitions.mapIdx fun index definition =>
    if index < count then definition.relocate registry.compactPlace else definition.blank

theorem mirrors_describedTypes (hwf : registry.WellFormed) (count : Nat) :
    registry.Mirrors (Registry.ofTypes (describedTypes registry count)) registry.compactPlace := by
  refine hwf.mirrors_ofTypes (List.ext_getElem? fun index => ?_)
  rw [List.getElem?_map, List.getElem?_map, describedTypes, List.getElem?_mapIdx]
  cases hindex : registry.userDefinitions[index]? with
  | none => rfl
  | some definition =>
      obtain ⟨huser, handle, hfound⟩ := userDefinition_facts (List.mem_of_getElem? hindex)
      have hblank := TypeDefinition.blank_outline (hwf.parameters handle definition hfound huser)
      rw [Option.map_some, Option.map_some, Option.map_some]
      split
      · rw [TypeDefinition.relocate_outline, TypeDefinition.relocate_name]
      · rw [hblank]
        rfl

theorem describedTypes_succ {index : Nat}
    (hindex : registry.userDefinitions[index]? = some definition) :
    (describedTypes registry index).set index (definition.relocate registry.compactPlace) =
      describedTypes registry (index + 1) := by
  refine List.ext_getElem? fun place => ?_
  rw [describedTypes, describedTypes, List.getElem?_set, List.getElem?_mapIdx,
    List.getElem?_mapIdx, List.length_mapIdx]
  by_cases hsame : index = place
  · subst hsame
    obtain ⟨hlt, -⟩ := List.getElem?_eq_some_iff.mp hindex
    rw [if_pos rfl, if_pos hlt, hindex, Option.map_some, if_pos (Nat.lt_succ_self _)]
  · have hbefore : place < index ↔ place < index + 1 := by omega
    simp only [if_neg hsame, hbefore]

/-- Describing one type after the other keeps a mirror, whose names the next description needs. -/
theorem describeType_step (hwf : registry.WellFormed) (hwords : registry.HasWords) {index : Nat}
    (hindex : registry.userDefinitions[index]? = some definition) :
    (ofRegistry registry).describeType (Registry.ofTypes (describedTypes registry index))
      (Registry.userPlace index) =
        .ok (Registry.ofTypes (describedTypes registry (index + 1))) := by
  have hmem := List.mem_of_getElem? hindex
  obtain ⟨huser, handle, hfound⟩ := userDefinition_facts hmem
  have htype : (describedTypes registry index)[index]? = some definition.blank := by
    rw [describedTypes, List.getElem?_mapIdx, hindex, Option.map_some, if_neg (Nat.lt_irrefl _)]
  have hblank : (Registry.ofTypes (describedTypes registry index)).get? (Registry.userPlace index) =
      some definition.blank := Registry.get?_ofTypes_userPlace.trans htype
  have hdescriptor : (ofRegistry registry).descriptors.get? definition.blank.name =
      some (registry.describeDefinition definition) :=
    get?_ofList_userDefinitions hwf registry.describeDefinition hmem
  rw [describeType, Registry.nameOf_of_get? hblank, hdescriptor]
  dsimp only
  rw [(mirrors_describedTypes hwf index).describeAs hwf hwords hfound huser hblank,
    Registry.modify_ofTypes htype, describedTypes_succ hindex]

theorem describeTypes (hwf : registry.WellFormed) (hwords : registry.HasWords) :
    ((List.range registry.userDefinitions.length).map Registry.userPlace).foldlM
      (ofRegistry registry).describeType
        (Registry.ofTypes (registry.userDefinitions.map TypeDefinition.blank)) =
          .ok registry.compact := by
  have hstart : describedTypes registry 0 = registry.userDefinitions.map TypeDefinition.blank := by
    refine List.ext_getElem? fun index => ?_
    simp [describedTypes]
  have hend : Registry.ofTypes (describedTypes registry registry.userDefinitions.length) =
      registry.compact := by
    rw [Registry.compact]
    refine congrArg Registry.ofTypes (List.ext_getElem (by simp [describedTypes]) ?_)
    intro index hindex hindex'
    have hlt : index < registry.userDefinitions.length := by simpa using hindex'
    simp [describedTypes, hlt]
  have hstages := foldlM_stages (fun index => Registry.ofTypes (describedTypes registry index))
    fun index place hplace => by
      rw [List.getElem?_map, Option.map_eq_some_iff] at hplace
      obtain ⟨number, hnumber, rfl⟩ := hplace
      obtain ⟨hlt, rfl⟩ := List.getElem?_eq_some_iff.mp hnumber
      rw [List.length_range] at hlt
      rw [List.getElem_range]
      exact describeType_step hwf hwords (List.getElem?_eq_getElem hlt)
  rw [hstart, List.length_map, List.length_range, hend] at hstages
  exact hstages

/-- The document of a registry is restored to the registry without the places of deleted types. -/
theorem restore_ofRegistry (hwf : registry.WellFormed) (hwords : registry.HasWords) :
    (ofRegistry registry).restore = .ok registry.compact := by
  have hblank : ∀ definition ∈ registry.userDefinitions.map TypeDefinition.blank,
      definition.isBuiltin = false := by
    intro blank hmem
    obtain ⟨definition, hin, rfl⟩ := List.mem_map.mp hmem
    obtain ⟨huser, handle, hfound⟩ := userDefinition_facts hin
    have hsame : definition.blank.builtin? = definition.builtin? := congrArg Outline.builtin
      (TypeDefinition.blank_outline (hwf.parameters handle definition hfound huser))
    rw [TypeDefinition.isBuiltin, hsame]
    exact huser
  rw [restore, if_neg (by simp [ofRegistry]), typeNames_ofRegistry hwf, declareTypes hwf]
  dsimp only [bind, Except.bind, pure, Except.pure]
  rw [Registry.userTypes_ofTypes hblank, List.length_map]
  exact describeTypes hwf hwords

end SchemaDocument
end LiveSchema
