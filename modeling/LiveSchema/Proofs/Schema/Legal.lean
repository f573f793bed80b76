import LiveSchema.Legality.Arguments
import LiveSchema.Proofs.Schema.Lookup
import LiveSchema.Store

/-!
# Legal type references

The check of a type reference as a property of its arguments.  It depends on the outlines of the types
that the reference mentions and on nothing else, so it survives every change that keeps these.

A handle is the place of a type in a registry.  What one registry holds is moved to the places that
another registry has for the same types.
-/

namespace LiveSchema

/-! ## Types at other places -/

mutual

/-- The reference to types at other places. -/
def TypeReference.relocate (ρ : TypeHandle → TypeHandle) : TypeReference → TypeReference
  | ⟨handle, arguments⟩ => ⟨ρ handle, TemplateArgument.relocateAll ρ arguments⟩

/-- The arguments with types at other places. -/
def TemplateArgument.relocateAll (ρ : TypeHandle → TypeHandle) :
    List TemplateArgument → List TemplateArgument
  | [] => []
  | .size count :: rest => .size count :: TemplateArgument.relocateAll ρ rest
  | .type inner :: rest => .type (inner.relocate ρ) :: TemplateArgument.relocateAll ρ rest

end

/-- The argument with types at other places. -/
def TemplateArgument.relocate (ρ : TypeHandle → TypeHandle) : TemplateArgument → TemplateArgument
  | .size count => .size count
  | .type inner => .type (inner.relocate ρ)

theorem TemplateArgument.relocateAll_eq_map (ρ : TypeHandle → TypeHandle)
    (arguments : List TemplateArgument) :
    TemplateArgument.relocateAll ρ arguments = arguments.map (TemplateArgument.relocate ρ) := by
  induction arguments with
  | nil => rw [TemplateArgument.relocateAll, List.map_nil]
  | cons argument rest ih =>
      rw [List.map_cons, ← ih]
      cases argument with
      | size count => rw [TemplateArgument.relocateAll, TemplateArgument.relocate]
      | type inner => rw [TemplateArgument.relocateAll, TemplateArgument.relocate]

namespace TypeReference

@[simp]
theorem relocate_handle (ρ : TypeHandle → TypeHandle) (reference : TypeReference) :
    (reference.relocate ρ).handle = ρ reference.handle := by
  obtain ⟨handle, arguments⟩ := reference
  rw [relocate]

@[simp]
theorem relocate_arguments (ρ : TypeHandle → TypeHandle) (reference : TypeReference) :
    (reference.relocate ρ).arguments =
      reference.arguments.map (TemplateArgument.relocate ρ) := by
  obtain ⟨handle, arguments⟩ := reference
  rw [relocate, TemplateArgument.relocateAll_eq_map]

end TypeReference

/-! ## Definitions and stores -/

/-- The field with its type at another place. -/
def Field.relocate (ρ : TypeHandle → TypeHandle) (field : Field) : Field :=
  { field with type := field.type.relocate ρ }

/-- The definition that refers to types at other places. -/
def TypeDefinition.relocate (ρ : TypeHandle → TypeHandle) (definition : TypeDefinition) :
    TypeDefinition :=
  { definition with
    base := definition.base.map fun base => base.relocate ρ
    body := match definition.body with
      | .record record => .record { record with fields := record.fields.map (Field.relocate ρ) }
      | body => body }

/-- The root with its type at another place. -/
def Root.relocate (ρ : TypeHandle → TypeHandle) (root : Root) : Root :=
  { root with type := root.type.relocate ρ }

/-- The stores with the types of all roots at other places. -/
def Stores.relocate (ρ : TypeHandle → TypeHandle) (stores : Stores) : Stores :=
  NameMap.mapValues stores fun _ store => NameMap.mapValues store fun _ root => root.relocate ρ

/-! ## References inside a reference -/

namespace TypeReference

/-- Induction over the references inside a reference. -/
theorem inner_induction {motive : TypeReference → Prop}
    (step : ∀ reference,
      (∀ inner, TemplateArgument.type inner ∈ reference.arguments → motive inner) →
        motive reference)
    (reference : TypeReference) : motive reference :=
  step reference fun inner _ => inner_induction step inner
termination_by sizeOf reference
decreasing_by exact sizeOf_lt_of_mem (by assumption)

@[simp]
theorem relocate_id (reference : TypeReference) : reference.relocate id = reference := by
  induction reference using inner_induction with
  | step reference ih =>
      have harguments : reference.arguments.map (TemplateArgument.relocate id) =
          reference.arguments := by
        refine (List.map_congr_left fun argument hmem => ?_).trans (List.map_id _)
        cases argument with
        | size count => rfl
        | type inner => exact congrArg TemplateArgument.type (ih inner hmem)
      obtain ⟨handle, arguments⟩ := reference
      rw [relocate, TemplateArgument.relocateAll_eq_map, harguments, id]

theorem anyMentions_iff {handle : TypeHandle} {arguments : List TemplateArgument} :
    TemplateArgument.anyMentions handle arguments = true ↔
      ∃ inner, TemplateArgument.type inner ∈ arguments ∧ inner.mentions handle = true := by
  induction arguments with
  | nil => simp [TemplateArgument.anyMentions]
  | cons argument rest ih =>
      cases argument with
      | size count => simp [TemplateArgument.anyMentions, ih]
      | type inner => simp [TemplateArgument.anyMentions, ih]

theorem mentions_iff {handle : TypeHandle} {reference : TypeReference} :
    reference.mentions handle = true ↔ reference.handle = handle ∨
      ∃ inner, TemplateArgument.type inner ∈ reference.arguments ∧
        inner.mentions handle = true := by
  obtain ⟨head, arguments⟩ := reference
  simp [mentions, anyMentions_iff]

theorem mentions_head (reference : TypeReference) :
    reference.mentions reference.handle = true :=
  mentions_iff.mpr (Or.inl rfl)

theorem mentions_of_mem {reference inner : TypeReference} {handle : TypeHandle}
    (hmem : TemplateArgument.type inner ∈ reference.arguments)
    (h : inner.mentions handle = true) : reference.mentions handle = true :=
  mentions_iff.mpr (Or.inr ⟨inner, hmem, h⟩)

theorem mem_of_typeArgument? {reference inner : TypeReference} {index : Nat}
    (h : reference.typeArgument? index = some inner) :
    TemplateArgument.type inner ∈ reference.arguments := by
  unfold typeArgument? at h
  split at h
  next hfound =>
      cases h
      exact List.mem_of_getElem? hfound
  next => exact absurd h (by simp)

theorem typeArgument?_eq_some {reference inner : TypeReference} {index : Nat} :
    reference.typeArgument? index = some inner ↔
      reference.arguments[index]? = some (.type inner) := by
  unfold typeArgument?
  split
  next hfound => simp [hfound]
  next hnone =>
      constructor
      · exact fun h => absurd h (by simp)
      · exact fun h => absurd h (hnone inner)

end TypeReference

namespace TypeDefinition

theorem parameterFor?_congr {a b : TypeDefinition} (h : a.parameters = b.parameters)
    (index : Nat) : a.parameterFor? index = b.parameterFor? index := by
  simp only [parameterFor?, h]

end TypeDefinition

namespace Registry

variable {registry other : Registry} {reference : TypeReference}

/-- The reference passes the check for type references. -/
def Legal (registry : Registry) (reference : TypeReference) : Prop :=
  Legality.referenceViolation? registry reference = none

/-- The argument meets a parameter, and what lies inside it is legal. -/
def Suits (registry : Registry) (parameter : TemplateParameter) : TemplateArgument → Prop
  | .size count => parameter.qualifier = .size ∧ count.toNat ≤ maxArraySize
  | .type inner =>
    parameter.qualifier ≠ .size ∧ registry.satisfies inner.handle parameter.qualifier = true ∧
      registry.Legal inner

theorem suits_iff {parameter : TemplateParameter} {argument : TemplateArgument} :
    registry.Suits parameter argument ↔
      Legality.argumentViolation? registry argument parameter = none ∧
        Legality.insideViolation? registry argument = none := by
  cases argument with
  | size count =>
      simp only [Suits, Legality.argumentViolation?, Legality.insideViolation?, and_true]
      split
      next h => simp [h]
      next h =>
          split <;> simp_all
  | type inner =>
      simp only [Suits, Legality.argumentViolation?, Legality.insideViolation?, Legal]
      split
      next h => simp [h]
      next h =>
          cases hfound : registry.get? inner.handle with
          | none => simp [h, satisfies, hfound]
          | some definition => simp [h]

theorem argumentsViolation?_eq_none {definition : TypeDefinition} {given index : Nat}
    {arguments : List TemplateArgument} :
    Legality.argumentsViolation? registry definition given index arguments = none ↔
      ∀ position argument, arguments[position]? = some argument →
        ∃ parameter, definition.parameterFor? (index + position) = some parameter ∧
          registry.Suits parameter argument := by
  induction arguments generalizing index with
  | nil => simp [Legality.argumentsViolation?]
  | cons first rest ih =>
      -- the first argument has the position `index`, the others come after it
      have hsplit : (∀ position argument, (first :: rest)[position]? = some argument →
            ∃ parameter, definition.parameterFor? (index + position) = some parameter ∧
              registry.Suits parameter argument) ↔
          (∃ parameter, definition.parameterFor? index = some parameter ∧
            registry.Suits parameter first) ∧
          ∀ position argument, rest[position]? = some argument →
            ∃ parameter, definition.parameterFor? (index + 1 + position) = some parameter ∧
              registry.Suits parameter argument := by
        constructor
        · intro h
          refine ⟨h 0 first rfl, fun position argument hfound => ?_⟩
          have hnext := h (position + 1) argument (by simpa using hfound)
          rwa [show index + (position + 1) = index + 1 + position by omega] at hnext
        · rintro ⟨hfirst, hrest⟩ position argument hfound
          cases position with
          | zero =>
              obtain rfl : first = argument := by simpa using hfound
              exact hfirst
          | succ position =>
              have hnext := hrest position argument (by simpa using hfound)
              rwa [show index + 1 + position = index + (position + 1) by omega] at hnext
      rw [hsplit, ← ih, Legality.argumentsViolation?]
      cases hparameter : definition.parameterFor? index with
      | none => simp
      | some parameter =>
          simp only [Option.some.injEq, exists_eq_left', suits_iff]
          cases Legality.argumentViolation? registry first parameter with
          | some violation => simp
          | none => cases Legality.insideViolation? registry first <;> simp

/-- A reference is legal if its type is live, no argument is missing and each argument meets its
parameter. -/
theorem legal_iff : registry.Legal reference ↔
    ∃ definition, registry.get? reference.handle = some definition ∧
      definition.parameters.length ≤ reference.arguments.length ∧
      ∀ index argument, reference.arguments[index]? = some argument →
        ∃ parameter, definition.parameterFor? index = some parameter ∧
          registry.Suits parameter argument := by
  obtain ⟨handle, arguments⟩ := reference
  rw [Legal, Legality.referenceViolation?]
  cases hfound : registry.get? handle with
  | none => simp
  | some definition =>
      simp only [Option.some.injEq, exists_eq_left']
      by_cases hfew : arguments.length < definition.parameters.length
      · simp [hfew, Nat.not_le.mpr hfew]
      · rw [if_neg hfew, argumentsViolation?_eq_none]
        simp [Nat.not_lt.mp hfew]

theorem Legal.get? (h : registry.Legal reference) :
    ∃ definition, registry.get? reference.handle = some definition := by
  obtain ⟨definition, hfound, -⟩ := legal_iff.mp h
  exact ⟨definition, hfound⟩

theorem Legal.inner (h : registry.Legal reference) {inner : TypeReference}
    (hmem : TemplateArgument.type inner ∈ reference.arguments) : registry.Legal inner := by
  obtain ⟨definition, -, -, hsuits⟩ := legal_iff.mp h
  obtain ⟨index, hindex⟩ := List.mem_iff_getElem?.mp hmem
  obtain ⟨parameter, -, hsuit⟩ := hsuits index _ hindex
  exact hsuit.2.2

/-- Every type that a legal reference mentions is live. -/
theorem Legal.get?_of_mentions (h : registry.Legal reference) {handle : TypeHandle}
    (hmentions : reference.mentions handle = true) :
    ∃ definition, registry.get? handle = some definition := by
  induction reference using TypeReference.inner_induction with
  | step reference ih =>
      rcases TypeReference.mentions_iff.mp hmentions with rfl | ⟨inner, hmem, hinner⟩
      · exact h.get?
      · exact ih inner hmem (h.inner hmem) hinner

/-! ## Dependence on outlines -/

theorem outline?_eq_some {handle : TypeHandle} {outline : Outline} :
    registry.outline? handle = some outline ↔
      ∃ definition, registry.get? handle = some definition ∧ definition.outline = outline := by
  rw [outline?, Option.map_eq_some_iff]

theorem satisfies_congr {handle place : TypeHandle}
    (h : other.outline? place = registry.outline? handle) (qualifier : Qualifier) :
    other.satisfies place qualifier = registry.satisfies handle qualifier := by
  unfold satisfies
  unfold outline? at h
  cases hold : registry.get? handle with
  | none =>
      cases hnew : other.get? place with
      | none => rfl
      | some definition => simp [hold, hnew] at h
  | some old =>
      cases hnew : other.get? place with
      | none => simp [hold, hnew] at h
      | some new =>
          rw [hold, hnew, Option.map_some, Option.map_some, Option.some.injEq,
            TypeDefinition.outline, TypeDefinition.outline, Outline.mk.injEq] at h
          obtain ⟨-, hvariant, hbuiltin⟩ := h
          have hqualifier : ∀ q, new.hasQualifier q = old.hasQualifier q := by
            intro q
            obtain ⟨_, _, _, newBody⟩ := new
            obtain ⟨_, _, _, oldBody⟩ := old
            cases newBody <;> cases oldBody <;>
              simp_all [TypeDefinition.hasQualifier, TypeDefinition.builtin?]
          simp only [hvariant, hqualifier]

/-- A legal reference is legal at other places if the types it mentions keep their outlines. -/
theorem Legal.relocate {ρ : TypeHandle → TypeHandle} (h : registry.Legal reference)
    (houtline : ∀ handle, reference.mentions handle = true →
      other.outline? (ρ handle) = registry.outline? handle) : other.Legal (reference.relocate ρ) := by
  induction reference using TypeReference.inner_induction with
  | step reference ih =>
      obtain ⟨old, hold, hlength, hsuits⟩ := legal_iff.mp h
      have hhead := houtline _ (TypeReference.mentions_head reference)
      rw [outline?_eq_some.mpr ⟨old, hold, rfl⟩] at hhead
      obtain ⟨new, hnew, hsame⟩ := outline?_eq_some.mp hhead
      have hparameters : new.parameters = old.parameters := congrArg Outline.parameters hsame
      refine legal_iff.mpr ⟨new, by simpa using hnew, by simpa [hparameters] using hlength, ?_⟩
      intro index moved hmoved
      rw [TypeReference.relocate_arguments, List.getElem?_map, Option.map_eq_some_iff] at hmoved
      obtain ⟨argument, hfound, rfl⟩ := hmoved
      obtain ⟨parameter, hparameter, hsuit⟩ := hsuits index argument hfound
      refine ⟨parameter, ?_, ?_⟩
      · rw [TypeDefinition.parameterFor?_congr hparameters, hparameter]
      · cases argument with
        | size count => exact hsuit
        | type inner =>
            have hmem := List.mem_of_getElem? hfound
            obtain ⟨hqualifier, hsatisfies, hlegal⟩ := hsuit
            refine ⟨hqualifier, ?_, ih inner hmem hlegal fun handle hmentions => ?_⟩
            · rw [TypeReference.relocate_handle, satisfies_congr (houtline _
                (TypeReference.mentions_of_mem hmem (TypeReference.mentions_head inner)))]
              exact hsatisfies
            · exact houtline handle (TypeReference.mentions_of_mem hmem hmentions)

/-- A legal reference stays legal if the types it mentions keep their outlines. -/
theorem Legal.congr (h : registry.Legal reference)
    (houtline : ∀ handle, reference.mentions handle = true →
      other.outline? handle = registry.outline? handle) : other.Legal reference := by
  have hsame : ∀ handle, reference.mentions handle = true →
      other.outline? (id handle) = registry.outline? handle := houtline
  exact TypeReference.relocate_id reference ▸ h.relocate hsame

/-! ## Arguments of legal references -/

/-- An argument is a type where its parameter asks for one. -/
theorem Legal.typeArgument? (h : registry.Legal reference) {definition : TypeDefinition}
    {index : Nat} (hfound : registry.get? reference.handle = some definition)
    (hindex : index < reference.arguments.length)
    (hqualifier : ∀ parameter, definition.parameterFor? index = some parameter →
      parameter.qualifier ≠ .size) :
    ∃ inner, reference.typeArgument? index = some inner ∧ registry.Legal inner := by
  obtain ⟨found, hfound', -, hsuits⟩ := legal_iff.mp h
  obtain rfl : definition = found := Option.some.inj (hfound.symm.trans hfound')
  obtain ⟨parameter, hparameter, hsuit⟩ := hsuits index _ (List.getElem?_eq_getElem hindex)
  cases hargument : reference.arguments[index] with
  | size count =>
      rw [hargument] at hsuit
      exact absurd hsuit.1 (hqualifier parameter hparameter)
  | type inner =>
      refine ⟨inner, TypeReference.typeArgument?_eq_some.mpr ?_, ?_⟩
      · rw [List.getElem?_eq_getElem hindex, hargument]
      · rw [hargument] at hsuit
        exact hsuit.2.2

/-- An argument is a size where its parameter asks for one. -/
theorem Legal.sizeArgument? (h : registry.Legal reference) {definition : TypeDefinition}
    {index : Nat} (hfound : registry.get? reference.handle = some definition)
    (hindex : index < reference.arguments.length)
    (hqualifier : ∀ parameter, definition.parameterFor? index = some parameter →
      parameter.qualifier = .size) :
    ∃ count, reference.sizeArgument? index = some count := by
  obtain ⟨found, hfound', -, hsuits⟩ := legal_iff.mp h
  obtain rfl : definition = found := Option.some.inj (hfound.symm.trans hfound')
  obtain ⟨parameter, hparameter, hsuit⟩ := hsuits index _ (List.getElem?_eq_getElem hindex)
  cases hargument : reference.arguments[index] with
  | size count =>
      exact ⟨count, by simp [TypeReference.sizeArgument?, List.getElem?_eq_getElem hindex, hargument]⟩
  | type inner =>
      rw [hargument] at hsuit
      exact absurd (hqualifier parameter hparameter) hsuit.1

end Registry
end LiveSchema
