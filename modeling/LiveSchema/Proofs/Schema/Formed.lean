import LiveSchema.Proofs.Schema.Legal

/-!
# Formed registries

In a formed registry the built-in types have their places and no others, bases and field types are
legal, and only records have bases.  This is what every change of a definition has to keep before the
relations between records can be looked at.
-/

namespace LiveSchema
namespace Registry

variable {registry : Registry} {handle : TypeHandle} {definition : TypeDefinition}

/-- The reference can be the base of a record of the given kind. -/
def SuitableBase (registry : Registry) (variant : TypeVariant) (base : TypeReference) : Prop :=
  registry.Legal base ∧ ∃ definition, registry.get? base.handle = some definition ∧
    definition.variant = variant

/-- The definitions of a registry agree with each other. -/
structure Formed (registry : Registry) : Prop where
  /-- Every built-in type is at its place. -/
  builtins : ∀ index builtin, Builtin.all[index]? = some builtin →
    registry.get? ⟨index⟩ = some (.ofBuiltin builtin)
  /-- A built-in type is at no other place. -/
  places : ∀ handle definition builtin, registry.get? handle = some definition →
    definition.body = .builtin builtin → Builtin.all[handle.index]? = some builtin
  /-- Only built-in types take arguments. -/
  parameters : ∀ handle definition, registry.get? handle = some definition →
    definition.isBuiltin = false → definition.parameters = []
  /-- A base belongs to a record and is a record of the same kind. -/
  bases : ∀ handle definition base, registry.get? handle = some definition →
    definition.base = some base →
      definition.isRecord = true ∧ registry.SuitableBase definition.variant base
  /-- The types of fields are legal. -/
  fields : ∀ handle, ∀ field ∈ registry.ownFields handle, registry.Legal field.type

/-! ## Built-in types -/

theorem builtin?_eq_some {builtin : Builtin} :
    registry.builtin? handle = some builtin ↔
      ∃ definition, registry.get? handle = some definition ∧
        definition.body = .builtin builtin := by
  rw [builtin?, Option.bind_eq_some_iff]
  constructor
  · rintro ⟨definition, hfound, hbuiltin⟩
    refine ⟨definition, hfound, ?_⟩
    unfold TypeDefinition.builtin? at hbuiltin
    split at hbuiltin
    next hbody => rw [hbody, Option.some.inj hbuiltin]
    next => exact absurd hbuiltin (by simp)
  · rintro ⟨definition, hfound, hbody⟩
    exact ⟨definition, hfound, by simp [TypeDefinition.builtin?, hbody]⟩

theorem Formed.eq_ofBuiltin (hformed : registry.Formed) {builtin : Builtin}
    (hfound : registry.get? handle = some definition)
    (hbody : definition.body = .builtin builtin) : definition = .ofBuiltin builtin := by
  have hplace := hformed.places handle definition builtin hfound hbody
  exact Option.some.inj (hfound.symm.trans (hformed.builtins handle.index builtin hplace))

/-- A user type is at no place of a built-in type. -/
theorem Formed.ne_of_user (hformed : registry.Formed) {index : Nat} {builtin : Builtin}
    (hplace : Builtin.all[index]? = some builtin)
    (hfound : registry.get? handle = some definition) (huser : definition.isBuiltin = false) :
    (⟨index⟩ : TypeHandle) ≠ handle := by
  rintro rfl
  rw [hformed.builtins index builtin hplace, Option.some.injEq] at hfound
  subst hfound
  exact absurd huser (by simp)

theorem Formed.get?_of_builtin? (hformed : registry.Formed) {builtin : Builtin}
    (h : registry.builtin? handle = some builtin) :
    registry.get? handle = some (.ofBuiltin builtin) := by
  obtain ⟨definition, hfound, hbody⟩ := builtin?_eq_some.mp h
  rw [hfound, hformed.eq_ofBuiltin hfound hbody]

theorem Formed.builtin?_iff (hformed : registry.Formed) {builtin : Builtin} :
    registry.builtin? handle = some builtin ↔ Builtin.all[handle.index]? = some builtin := by
  constructor
  · intro h
    obtain ⟨definition, hfound, hbody⟩ := builtin?_eq_some.mp h
    exact hformed.places handle definition builtin hfound hbody
  · intro h
    exact builtin?_eq_some.mpr ⟨_, hformed.builtins handle.index builtin h, rfl⟩

theorem Formed.get?_void (hformed : registry.Formed) :
    registry.get? void = some (.ofBuiltin .void) :=
  hformed.builtins 0 .void rfl

theorem Formed.legal_void (hformed : registry.Formed) : registry.Legal (.plain void) :=
  legal_iff.mpr ⟨_, hformed.get?_void, by decide, by simp [TypeReference.plain]⟩

/-- A type that has a base type is a record, and so is its base type. -/
theorem Formed.record_of_baseOf? (hformed : registry.Formed) {base : TypeHandle}
    (h : registry.baseOf? handle = some base) :
    ∃ d b, registry.get? handle = some d ∧ registry.get? base = some b ∧
      d.isRecord = true ∧ b.isRecord = true ∧ b.variant = d.variant := by
  obtain ⟨d, reference, hd, hbase, rfl⟩ := get?_of_baseOf? h
  obtain ⟨hrecord, -, b, hb, hvariant⟩ := hformed.bases handle d reference hd hbase
  refine ⟨d, b, hd, hb, hrecord, ?_, hvariant⟩
  rw [TypeDefinition.isRecord_eq_of_variant hvariant, hrecord]

/-! ## The initial registry -/

theorem get?_initial (handle : TypeHandle) :
    initial.get? handle = (Builtin.all[handle.index]?).map TypeDefinition.ofBuiltin := by
  rw [get?_eq_join]
  simp only [initial, List.getElem?_toArray, List.getElem?_map]
  cases Builtin.all[handle.index]? <;> rfl

theorem formed_initial : initial.Formed where
  builtins := by
    intro index builtin hplace
    rw [get?_initial, hplace]
    rfl
  places := by
    intro handle definition builtin hfound hbody
    rw [get?_initial, Option.map_eq_some_iff] at hfound
    obtain ⟨found, hplace, rfl⟩ := hfound
    obtain rfl : found = builtin := TypeBody.builtin.inj hbody
    exact hplace
  parameters := by
    intro handle definition hfound huser
    rw [get?_initial, Option.map_eq_some_iff] at hfound
    obtain ⟨builtin, -, rfl⟩ := hfound
    exact absurd huser (by simp)
  bases := by
    intro handle definition base hfound hbase
    rw [get?_initial, Option.map_eq_some_iff] at hfound
    obtain ⟨builtin, -, rfl⟩ := hfound
    exact absurd hbase (by rintro ⟨⟩)
  fields := by
    intro handle field hfield
    obtain ⟨definition, hfound, hrecord, -⟩ := get?_of_mem_ownFields hfield
    rw [get?_initial, Option.map_eq_some_iff] at hfound
    obtain ⟨builtin, -, rfl⟩ := hfound
    exact absurd hrecord (by simp)

/-! ## Changes of one definition -/

theorem outline?_modify {f : TypeDefinition → TypeDefinition}
    (hfound : registry.get? handle = some definition)
    (houtline : (f definition).outline = definition.outline) (other : TypeHandle) :
    (registry.modify handle f).outline? other = registry.outline? other := by
  rw [outline?, outline?, get?_modify]
  by_cases hsame : other = handle
  · rw [if_pos hsame, hsame, hfound]
    simp [houtline]
  · rw [if_neg hsame]

theorem legal_modify {f : TypeDefinition → TypeDefinition} {reference : TypeReference}
    (hfound : registry.get? handle = some definition)
    (houtline : (f definition).outline = definition.outline) (h : registry.Legal reference) :
    (registry.modify handle f).Legal reference :=
  h.congr fun other _ => outline?_modify hfound houtline other

theorem SuitableBase.congr {other : Registry} {variant : TypeVariant} {base : TypeReference}
    (houtline : ∀ handle, base.mentions handle = true →
      other.outline? handle = registry.outline? handle)
    (h : registry.SuitableBase variant base) : other.SuitableBase variant base := by
  obtain ⟨hlegal, d, hd, hvariant⟩ := h
  refine ⟨hlegal.congr houtline, ?_⟩
  have hhead := houtline base.handle (TypeReference.mentions_head base)
  rw [outline?_eq_some.mpr ⟨d, hd, rfl⟩] at hhead
  obtain ⟨new, hnew, hsame⟩ := outline?_eq_some.mp hhead
  exact ⟨new, hnew, (congrArg Outline.variant hsame).trans hvariant⟩

/-- A user type may get another name, base, fields and enumerators, as long as these are legal. -/
theorem Formed.modify (hformed : registry.Formed) {f : TypeDefinition → TypeDefinition}
    (hfound : registry.get? handle = some definition)
    (huser : definition.isBuiltin = false)
    (houtline : (f definition).outline = definition.outline)
    (hbase : ∀ base, (f definition).base = some base →
      definition.isRecord = true ∧ registry.SuitableBase definition.variant base)
    (hfields : ∀ field ∈ (f definition).fields, registry.Legal field.type) :
    (registry.modify handle f).Formed := by
  have hbuiltin : (f definition).builtin? = none := by
    have hsame : (f definition).builtin? = definition.builtin? := congrArg Outline.builtin houtline
    simpa [hsame, TypeDefinition.isBuiltin] using huser
  have hvariant : (f definition).variant = definition.variant := congrArg Outline.variant houtline
  have hkeeps : ∀ (variant : TypeVariant) (base : TypeReference),
      registry.SuitableBase variant base → (registry.modify handle f).SuitableBase variant base :=
    fun variant base h => h.congr fun other _ => outline?_modify hfound houtline other
  have hcases : ∀ other d, (registry.modify handle f).get? other = some d →
      other = handle ∧ d = f definition ∨ registry.get? other = some d := by
    intro other d hd
    rcases get?_modify_cases hd with ⟨old, hsame, hold, rfl⟩ | hold
    · exact Or.inl ⟨hsame, by rw [Option.some.inj (hfound.symm.trans hold)]⟩
    · exact Or.inr hold
  constructor
  case builtins =>
      intro index builtin hplace
      rw [get?_modify_of_ne f (hformed.ne_of_user hplace hfound huser)]
      exact hformed.builtins index builtin hplace
  case places =>
      intro other d builtin hd hbody
      rcases hcases other d hd with ⟨rfl, rfl⟩ | hold
      · exact absurd hbuiltin (by simp [TypeDefinition.builtin?, hbody])
      · exact hformed.places other d builtin hold hbody
  case parameters =>
      intro other d hd hnot
      rcases hcases other d hd with ⟨rfl, rfl⟩ | hold
      · exact (congrArg Outline.parameters houtline).trans
          (hformed.parameters _ definition hfound huser)
      · exact hformed.parameters other d hold hnot
  case bases =>
      intro other d base hd hbased
      rcases hcases other d hd with ⟨rfl, rfl⟩ | hold
      · obtain ⟨hrecord, hsuitable⟩ := hbase base hbased
        refine ⟨?_, ?_⟩
        · rw [TypeDefinition.isRecord_eq_of_variant hvariant, hrecord]
        · rw [hvariant]
          exact hkeeps _ _ hsuitable
      · obtain ⟨hrecord, hsuitable⟩ := hformed.bases other d base hold hbased
        exact ⟨hrecord, hkeeps _ _ hsuitable⟩
  case fields =>
      intro other field hfield
      obtain ⟨d, hd, -, hmem⟩ := get?_of_mem_ownFields hfield
      refine legal_modify hfound houtline ?_
      rcases hcases other d hd with ⟨rfl, rfl⟩ | hold
      · exact hfields field hmem
      · rw [← ownFields_of_get? hold] at hmem
        exact hformed.fields other field hmem

/-! ## New types -/

theorem outline?_declare {reference : TypeReference} (hlegal : registry.Legal reference)
    (added : TypeDefinition) (handle : TypeHandle) (hmentions : reference.mentions handle = true) :
    (registry.declare added).outline? handle = registry.outline? handle := by
  obtain ⟨d, hd⟩ := hlegal.get?_of_mentions hmentions
  rw [outline?, outline?, get?_declare, if_neg (ne_nextHandle_of_get? hd)]

/-- A type that has neither base nor fields nor parameters may be declared. -/
theorem Formed.declare (hformed : registry.Formed) {added : TypeDefinition}
    (huser : added.isBuiltin = false) (hparameters : added.parameters = [])
    (hbase : added.base = none) (hfields : added.fields = []) :
    (registry.declare added).Formed := by
  constructor
  case builtins =>
      intro index builtin hplace
      have hold := hformed.builtins index builtin hplace
      rw [get?_declare, if_neg (ne_nextHandle_of_get? hold), hold]
  case places =>
      intro other d builtin hd hbody
      rcases get?_declare_cases hd with ⟨-, rfl⟩ | hold
      · exact absurd huser (by simp [TypeDefinition.isBuiltin_of_builtin hbody])
      · exact hformed.places other d builtin hold hbody
  case parameters =>
      intro other d hd hnot
      rcases get?_declare_cases hd with ⟨-, rfl⟩ | hold
      · exact hparameters
      · exact hformed.parameters other d hold hnot
  case bases =>
      intro other d base hd hbased
      rcases get?_declare_cases hd with ⟨-, rfl⟩ | hold
      · exact absurd (hbase.symm.trans hbased) (by simp)
      · obtain ⟨hrecord, hsuitable⟩ := hformed.bases other d base hold hbased
        exact ⟨hrecord, hsuitable.congr fun mentioned hmentions =>
          outline?_declare hsuitable.1 added mentioned hmentions⟩
  case fields =>
      intro other field hfield
      obtain ⟨d, hd, -, hmem⟩ := get?_of_mem_ownFields hfield
      rcases get?_declare_cases hd with ⟨-, rfl⟩ | hold
      · exact absurd (hfields ▸ hmem) List.not_mem_nil
      · rw [← ownFields_of_get? hold] at hmem
        have hlegal := hformed.fields other field hmem
        exact hlegal.congr fun mentioned hmentions =>
          outline?_declare hlegal added mentioned hmentions

/-! ## Deleted types -/

/-- The definitions of all other types refer to types other than this one. -/
def Unused (registry : Registry) (handle : TypeHandle) : Prop :=
  ∀ other definition, other ≠ handle → registry.get? other = some definition →
    (∀ field ∈ definition.fields, field.type.mentions handle = false) ∧
      ∀ base, definition.base = some base → base.mentions handle = false

theorem outline?_remove {other : TypeHandle} (hne : other ≠ handle) :
    (registry.remove handle).outline? other = registry.outline? other := by
  rw [outline?, outline?, get?_remove, if_neg hne]

theorem outline?_remove_of_mentions {reference : TypeReference}
    (hunused : reference.mentions handle = false) (other : TypeHandle)
    (hmentions : reference.mentions other = true) :
    (registry.remove handle).outline? other = registry.outline? other := by
  refine outline?_remove ?_
  rintro rfl
  exact absurd (hmentions.symm.trans hunused) (by simp)

/-- A user type that no other type refers to may be deleted. -/
theorem Formed.remove (hformed : registry.Formed)
    (hfound : registry.get? handle = some definition)
    (huser : definition.isBuiltin = false) (hunused : registry.Unused handle) :
    (registry.remove handle).Formed := by
  constructor
  case builtins =>
      intro index builtin hplace
      rw [get?_remove, if_neg (hformed.ne_of_user hplace hfound huser)]
      exact hformed.builtins index builtin hplace
  case places =>
      intro other d builtin hd hbody
      exact hformed.places other d builtin (get?_of_get?_remove hd).2 hbody
  case parameters =>
      intro other d hd hnot
      exact hformed.parameters other d (get?_of_get?_remove hd).2 hnot
  case bases =>
      intro other d base hd hbased
      obtain ⟨hne, hold⟩ := get?_of_get?_remove hd
      obtain ⟨hrecord, hsuitable⟩ := hformed.bases other d base hold hbased
      have hfree := (hunused other d hne hold).2 base hbased
      exact ⟨hrecord, hsuitable.congr (outline?_remove_of_mentions hfree)⟩
  case fields =>
      intro other field hfield
      obtain ⟨d, hd, -, hmem⟩ := get?_of_mem_ownFields hfield
      obtain ⟨hne, hold⟩ := get?_of_get?_remove hd
      have hfree := (hunused other d hne hold).1 field hmem
      rw [← ownFields_of_get? hold] at hmem
      exact (hformed.fields other field hmem).congr (outline?_remove_of_mentions hfree)

end Registry
end LiveSchema
