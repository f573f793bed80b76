import LiveSchema.Proofs.Schema.Edits
import LiveSchema.Proofs.Schema.Legal

/-!
# Legal flags

The check of the flags of a field relates three things: the flags themselves, the type of the field and
the flags of its record.  Of the registry it needs only the outline of the type.  So the definitions
after a change can be checked against the registry before it, and it does not matter afterwards which of
the two was asked.
-/

namespace LiveSchema

namespace TypeDefinition

/-- The flags of a record; other types have none. -/
def flags (definition : TypeDefinition) : RecordFlags :=
  match definition.body with
  | .record record => record.flags
  | _ => .empty

@[simp] theorem flags_mapEnumerators (definition : TypeDefinition)
    (f : List Enumerator → List Enumerator) :
    (definition.mapEnumerators f).flags = definition.flags := by
  obtain ⟨name, base, parameters, body⟩ := definition
  cases body <;> rfl

end TypeDefinition

namespace Registry

variable {registry before : Registry} {handle record : TypeHandle} {definition : TypeDefinition}
  {variant : TypeVariant} {recordFlags : RecordFlags} {type : TypeReference} {flags : FieldFlags}

/-- The flags that a field may have in a record of the given kind and flags. -/
structure FitsFlags (registry : Registry) (variant : TypeVariant) (recordFlags : RecordFlags)
    (type : TypeReference) (flags : FieldFlags) : Prop where
  access : flags.isPrivate = true ∨ flags.hasGetter = true ∨ flags.hasSetter = true →
    variant = .class
  accessors : flags.hasGetter = true ∨ flags.hasSetter = true → flags.isPrivate = true
  keys : flags.isUnique = true ∨ flags.isIndexed = true →
    variant = .struct ∧ recordFlags.isTable = true ∧
      registry.satisfies type.handle .scalar = true

theorem flagsViolation?_eq_none :
    Legality.flagsViolation? registry variant recordFlags type flags = none ↔
      registry.FitsFlags variant recordFlags type flags := by
  unfold Legality.flagsViolation?
  constructor
  · intro h
    refine ⟨?_, ?_, ?_⟩ <;> grind
  · rintro ⟨haccess, haccessors, hkeys⟩
    grind

theorem fitsFlags_empty : registry.FitsFlags variant recordFlags type .empty :=
  flagsViolation?_eq_none.mp (by
    unfold Legality.flagsViolation?
    simp [FieldFlags.isPrivate, FieldFlags.hasGetter, FieldFlags.hasSetter, FieldFlags.isUnique,
      FieldFlags.isIndexed, FieldFlags.empty])

/-- Only the outline of the type matters, and it matters for keys of tables alone. -/
theorem FitsFlags.congr (h : before.FitsFlags variant recordFlags type flags)
    (houtline : before.isLive type.handle = true →
      registry.outline? type.handle = before.outline? type.handle) :
    registry.FitsFlags variant recordFlags type flags := by
  refine ⟨h.access, h.accessors, fun hkey => ?_⟩
  obtain ⟨hstruct, htable, hscalar⟩ := h.keys hkey
  have hlive : before.isLive type.handle = true := by
    unfold satisfies at hscalar
    rw [isLive]
    cases hfound : before.get? type.handle with
    | none => simp [hfound] at hscalar
    | some definition => rfl
  exact ⟨hstruct, htable, (satisfies_congr (houtline hlive) .scalar).trans hscalar⟩

/-- A definition of which every flag is legal. -/
structure LegallyFlagged (registry : Registry) (definition : TypeDefinition) : Prop where
  table : definition.flags.isTable = true → definition.variant = .struct
  fields : ∀ field ∈ definition.fields,
    registry.FitsFlags definition.variant definition.flags field.type field.flags

/-- Every live type has legal flags. -/
def WellFlagged (registry : Registry) : Prop :=
  registry.Each registry.LegallyFlagged

/-! ## Checks -/

theorem flagsOf_of_get? (hfound : registry.get? record = some definition) :
    Legality.flagsOf registry record = definition.flags := by
  unfold Legality.flagsOf record?
  rw [hfound, Option.bind_some]
  obtain ⟨name, base, parameters, body⟩ := definition
  cases body <;> rfl

theorem checkFieldFlags_eq_ok {done : Unit} :
    Legality.checkFieldFlags registry record type flags = .ok done ↔
      ∃ definition, registry.get? record = some definition ∧ definition.isRecord = true ∧
        registry.FitsFlags definition.variant definition.flags type flags := by
  unfold Legality.checkFieldFlags
  simp only [bind_eq_ok, Legality.checkRecord_eq_ok, and_assoc]
  refine exists_congr fun definition => and_congr_right fun hfound => and_congr_right fun _ => ?_
  rw [← flagsViolation?_eq_none, flagsOf_of_get? hfound]
  cases Legality.flagsViolation? registry definition.variant definition.flags type flags with
  | none => simp [pure, Except.pure]
  | some violation => simp [refuse]

theorem checkRecordFlags_eq_ok {done : Unit} :
    Legality.checkRecordFlags registry record recordFlags = .ok done ↔
      ∃ definition, registry.get? record = some definition ∧ definition.isRecord = true ∧
        (recordFlags.isTable = true → definition.variant = .struct) ∧
        ∀ field ∈ definition.fields,
          registry.FitsFlags definition.variant recordFlags field.type field.flags := by
  unfold Legality.checkRecordFlags
  simp only [bind_eq_ok, Legality.checkRecord_eq_ok, and_assoc, refuse_if_eq_ok]
  refine exists_congr fun definition => and_congr_right fun hfound => and_congr_right fun _ =>
    and_congr (by simp) ?_
  have hnone : Legality.fieldViolation? registry definition.variant recordFlags
      (registry.ownFields record) = none ↔ ∀ field ∈ definition.fields,
        registry.FitsFlags definition.variant recordFlags field.type field.flags := by
    rw [Legality.fieldViolation?, List.findSome?_eq_none_iff, ownFields_of_get? hfound]
    simp only [Option.map_eq_none_iff, flagsViolation?_eq_none]
  rw [← hnone]
  cases Legality.fieldViolation? registry definition.variant recordFlags
      (registry.ownFields record) with
  | none => simp [pure, Except.pure]
  | some violation => simp [refuse]

/-! ## Changes of one definition -/

/-- A definition that differs in nothing that flags depend on. -/
theorem LegallyFlagged.of_same {other : TypeDefinition} (h : registry.LegallyFlagged definition)
    (hvariant : other.variant = definition.variant) (hflags : other.flags = definition.flags)
    (hfields : other.fields = definition.fields) : registry.LegallyFlagged other := by
  refine ⟨?_, ?_⟩
  · rw [hvariant, hflags]
    exact h.table
  · rw [hvariant, hflags, hfields]
    exact h.fields

/-- A record may get fields that were there and fields that the flags of the record allow. -/
theorem LegallyFlagged.mapFields (h : registry.LegallyFlagged definition)
    {g : List Field → List Field}
    (hg : ∀ field ∈ g definition.fields,
      field ∈ definition.fields ∨
        registry.FitsFlags definition.variant definition.flags field.type field.flags) :
    registry.LegallyFlagged
      (definition.mapRecord fun own => { own with fields := g own.fields }) := by
  cases hbody : definition.body with
  | builtin _ | enumeration _ => simpa [TypeDefinition.mapRecord, hbody] using h
  | record own =>
      have hvariant : (definition.mapRecord fun own => { own with fields := g own.fields }).variant =
          definition.variant := by simp [TypeDefinition.mapRecord, TypeDefinition.variant, hbody]
      have hflags : (definition.mapRecord fun own => { own with fields := g own.fields }).flags =
          definition.flags := by simp [TypeDefinition.mapRecord, TypeDefinition.flags, hbody]
      have hfields : (definition.mapRecord fun own => { own with fields := g own.fields }).fields =
          g definition.fields := by simp [TypeDefinition.mapRecord, TypeDefinition.fields, hbody]
      refine ⟨?_, ?_⟩
      · rw [hvariant, hflags]
        exact h.table
      · rw [hvariant, hflags, hfields]
        exact fun field hfield => (hg field hfield).elim (h.fields field) id

/-- A record may get flags that allow the fields it has. -/
theorem LegallyFlagged.mapFlags (h : registry.LegallyFlagged definition)
    (htable : recordFlags.isTable = true → definition.variant = .struct)
    (hfields : ∀ field ∈ definition.fields,
      registry.FitsFlags definition.variant recordFlags field.type field.flags) :
    registry.LegallyFlagged (definition.mapRecord fun own => { own with flags := recordFlags }) := by
  cases hbody : definition.body with
  | builtin _ | enumeration _ => simpa [TypeDefinition.mapRecord, hbody] using h
  | record own =>
      have hvariant : (definition.mapRecord fun own => { own with flags := recordFlags }).variant =
          definition.variant := by simp [TypeDefinition.mapRecord, TypeDefinition.variant, hbody]
      have hown : (definition.mapRecord fun own => { own with flags := recordFlags }).fields =
          definition.fields := by simp [TypeDefinition.mapRecord, TypeDefinition.fields, hbody]
      have hflags : (definition.mapRecord fun own => { own with flags := recordFlags }).flags =
          recordFlags := by simp [TypeDefinition.mapRecord, TypeDefinition.flags, hbody]
      refine ⟨?_, ?_⟩
      · rw [hvariant, hflags]
        exact htable
      · rw [hvariant, hflags, hown]
        exact hfields

theorem legallyFlagged_newRecord (kind : RecordKind) (name : String) :
    registry.LegallyFlagged (.newRecord kind name) where
  table h := absurd h (by simp [TypeDefinition.flags, TypeDefinition.newRecord, RecordFlags.empty,
    RecordFlags.isTable])
  fields := by simp [TypeDefinition.fields, TypeDefinition.newRecord]

/-- A type that is not a record has no flags. -/
theorem legallyFlagged_of_not_record (h : definition.isRecord = false) :
    registry.LegallyFlagged definition := by
  cases hbody : definition.body with
  | builtin _ | enumeration _ =>
      refine ⟨fun htable => absurd htable ?_, ?_⟩
      · simp [TypeDefinition.flags, hbody, RecordFlags.empty, RecordFlags.isTable]
      · simp [TypeDefinition.fields, hbody]
  | record own => exact absurd (TypeDefinition.isRecord_iff.mpr ⟨own, hbody⟩) (by simp [h])

end Registry
end LiveSchema
