import LiveSchema.Proofs.Json.Integers
import LiveSchema.Proofs.Value.Alike
import LiveSchema.Proofs.Value.Default
import LiveSchema.Proofs.Value.Entries
import LiveSchema.Value.Conversion

/-!
# Values made by the library conform

Default values conform to their types, and so does what a conversion makes of a value, whatever the
value was.
-/

namespace LiveSchema

namespace IntegerKind

theorem accepts_zero (kind : IntegerKind) : kind.accepts (.ofNat 0) = true := by
  obtain ⟨signed, width⟩ := kind
  cases signed <;> cases width <;> decide

end IntegerKind

namespace Registry

variable {registry : Registry} {reference : TypeReference} {within : List TypeHandle}

/-! ## Arguments of built-in types -/

/-- A legal reference to a built-in type has a type where a parameter asks for one. -/
theorem Legal.exists_typeArgument? (hlegal : registry.Legal reference) {builtin : Builtin}
    (hfound : registry.get? reference.handle = some (.ofBuiltin builtin)) (index : Nat)
    (parameter : TemplateParameter) (hparameter : builtin.parameters[index]? = some parameter)
    (hqualifier : parameter.qualifier ≠ .size) :
    ∃ inner, reference.typeArgument? index = some inner ∧ registry.Legal inner := by
  obtain ⟨definition, hfound', hlength, -⟩ := legal_iff.mp hlegal
  obtain rfl := Option.some.inj (hfound.symm.trans hfound')
  have hbound : index < builtin.parameters.length := (List.getElem?_eq_some_iff.mp hparameter).1
  refine hlegal.typeArgument? hfound (Nat.lt_of_lt_of_le hbound hlength) fun found hfor => ?_
  have hparameters : (TypeDefinition.ofBuiltin builtin).parameters[index]? = some parameter :=
    hparameter
  simp only [TypeDefinition.parameterFor?, hparameters] at hfor
  exact Option.some.inj hfor ▸ hqualifier

/-- A legal reference to an array type has a size. -/
theorem Legal.exists_sizeArgument? (hlegal : registry.Legal reference)
    (hfound : registry.get? reference.handle = some (.ofBuiltin .array)) :
    ∃ count, reference.sizeArgument? 1 = some count := by
  obtain ⟨definition, hfound', hlength, -⟩ := legal_iff.mp hlegal
  obtain rfl := Option.some.inj (hfound.symm.trans hfound')
  refine hlegal.sizeArgument? hfound hlength fun parameter hparameter => ?_
  have hsecond : (TypeDefinition.ofBuiltin .array).parameters[1]? =
      some ⟨"SIZE", .size, .empty⟩ := rfl
  simp only [TypeDefinition.parameterFor?, hsecond] at hparameter
  rw [← Option.some.inj hparameter]

/-! ## Default values -/

theorem defaultEntries?_eq {done entries : Entries} {fields : List Field}
    (hnodup : (Entries.keys done ++ fields.map Field.name).Nodup)
    (h : registry.defaultEntries? within done fields = some entries) :
    entries = done ++ Field.entriesOf fields fun field =>
      (registry.defaultWithin? within field.type).getD .null := by
  induction fields generalizing done with
  | nil =>
      rw [defaultEntries?_nil, Option.some.injEq] at h
      simp [h, Field.entriesOf]
  | cons field rest ih =>
      rw [defaultEntries?_cons, Option.bind_eq_some_iff] at h
      obtain ⟨value, hvalue, hrest⟩ := h
      rw [List.map_cons] at hnodup
      have hnew : field.name ∉ Entries.keys done := fun h =>
        (List.nodup_append.mp hnodup).2.2 field.name h field.name List.mem_cons_self rfl
      rw [Entries.assign_of_not_mem hnew] at hrest
      rw [ih (by simpa [Entries.keys] using hnodup) hrest]
      simp [Field.entriesOf, hvalue]

/-- Entries that give every field a value that conforms make an object that conforms. -/
theorem conforms_entriesOf {definition : TypeDefinition} {record : Record}
    (hfound : registry.get? reference.handle = some definition)
    (hbody : definition.body = .record record)
    (hnames : (registry.allFieldNames reference.handle).Nodup) {valueOf : Field → Json}
    (hvalues : ∀ field ∈ registry.allFields reference.handle,
      registry.conforms field.type (valueOf field) = true) :
    registry.conforms reference
      (.object (Field.entriesOf (registry.allFields reference.handle) valueOf)) = true := by
  refine (conforms_record_iff hfound hbody).mpr ⟨by simp [Field.entriesOf], ?_⟩
  intro field hfield
  exact ⟨valueOf field, Field.value?_entriesOf hnames hfield, hvalues field hfield⟩

theorem conforms_simpleDefault {builtin : Builtin} (hlegal : registry.Legal reference)
    (hfound : registry.get? reference.handle = some (.ofBuiltin builtin))
    (harray : builtin ≠ .array) (hvariant : builtin ≠ .variant) :
    registry.conforms reference (simpleDefault builtin) = true := by
  cases builtin with
  | array => exact absurd rfl harray
  | variant => exact absurd rfl hvariant
  | list =>
      obtain ⟨element, helement, -⟩ := hlegal.exists_typeArgument? hfound 0
        ⟨"ELEMENT", .anyType, .empty⟩ rfl (by simp)
      exact (conforms_items_iff hfound rfl rfl).mpr ⟨element, helement, by simp⟩
  | map => exact (conforms_map_iff hfound rfl).mpr (by simp)
  | own => exact (conforms_own_iff hfound rfl).mpr (Or.inl rfl)
  | integral kind =>
      rw [conforms, hfound]
      exact kind.accepts_zero
  | vector component size =>
      rw [conforms, hfound]
      simp only [TypeDefinition.ofBuiltin, simpleDefault, simpleConforms, List.length_replicate,
        decide_true, Bool.true_and]
      cases component <;> cases size <;> decide
  | _ =>
      rw [conforms, hfound]
      rfl

/-- The default of a legal type conforms to it. -/
theorem WellFormed.conforms_defaultWithin? (hwf : registry.WellFormed)
    (hlegal : registry.Legal reference) {value : Json}
    (h : registry.defaultWithin? within reference = some value) :
    registry.conforms reference value = true := by
  have hacc := hwf.acc_builds reference
  induction hacc generalizing within value with
  | intro reference _ ih =>
      obtain ⟨definition, hfound⟩ := hlegal.get?
      cases hbody : definition.body with
      | enumeration enumeration =>
          rw [defaultWithin?_enumeration hfound hbody, Option.some.injEq] at h
          subst h
          rw [conforms, hfound]
          simp only [hbody]
          rw [Json.ofInt_toInt]
          rfl
      | record record =>
          rw [defaultWithin?_record hfound hbody] at h
          split at h
          · exact absurd h (by simp)
          · obtain ⟨entries, hentries, rfl⟩ := Option.map_eq_some_iff.mp h
            have hnames : (Entries.keys [] ++
                (registry.allFields reference.handle).map Field.name).Nodup :=
              hwf.names reference.handle
            obtain rfl := defaultEntries?_eq hnames hentries
            rw [List.nil_append]
            refine conforms_entriesOf hfound hbody (hwf.names _) fun field hfield => ?_
            obtain ⟨held, hheld⟩ := forall_of_defaultEntries? hentries field hfield
            rw [hheld, Option.getD_some]
            exact ih field.type (.field hfield) (legal_of_mem_allFields hwf.toFormed hfield) hheld
      | builtin builtin =>
          have hbuiltin := builtin?_eq_some.mpr ⟨definition, hfound, hbody⟩
          have hplace := hwf.get?_of_builtin? hbuiltin
          by_cases harray : builtin = .array
          · subst harray
            rw [defaultWithin?_array hfound hbody, Option.map_eq_some_iff] at h
            obtain ⟨element, helement, rfl⟩ := h
            obtain ⟨inner, hinner, hinnerLegal⟩ := hlegal.exists_typeArgument? hplace 0
              ⟨"ELEMENT", .anyType, .empty⟩ rfl (by simp)
            obtain ⟨count, hcount⟩ := hlegal.exists_sizeArgument? hplace
            rw [hinner] at helement
            refine (conforms_array_iff hfound hbody).mpr ⟨inner, hinner, ?_, fun item hitem => ?_⟩
            · simp [hcount]
            · rw [List.eq_of_mem_replicate hitem]
              exact ih inner (.element hbuiltin hinner) hinnerLegal helement
          · by_cases hvariant : builtin = .variant
            · subst hvariant
              rw [defaultWithin?_variant hfound hbody, Option.map_eq_some_iff] at h
              obtain ⟨payload, hpayload, rfl⟩ := h
              obtain ⟨inner, hinner, hinnerLegal⟩ := hlegal.exists_typeArgument? hplace 0
                ⟨"TYPES", .anyType, .multiple⟩ rfl (by simp)
              rw [hinner] at hpayload
              refine (conforms_variant_iff hfound hbody).mpr ⟨inner, ?_, ?_⟩
              · rw [show (Json.ofNat 0).unsigned? = some 0 by decide, Option.bind_some, hinner]
              · exact ih inner (.alternative hbuiltin hinner) hinnerLegal hpayload
            · rw [defaultWithin?_simple hfound hbody harray hvariant, Option.some.injEq] at h
              subst h
              exact conforms_simpleDefault hlegal hplace harray hvariant

theorem WellFormed.conforms_defaultValue (hwf : registry.WellFormed)
    (hlegal : registry.Legal reference) :
    registry.conforms reference (registry.defaultValue reference) = true := by
  obtain ⟨value, hvalue⟩ := hwf.exists_default? reference
  rw [defaultValue, hvalue, Option.getD_some]
  exact hwf.conforms_defaultWithin? hlegal hvalue

end Registry

/-! ## Conversions -/

namespace IntegerKind

/-- The remainder of an integer among the integers of a kind belongs to the kind. -/
theorem holds_wrap (kind : IntegerKind) (value : Int) : kind.holds (kind.wrap value) = true := by
  obtain ⟨signed, width⟩ := kind
  cases signed with
  | false =>
      have hpositive : (0 : Int) < (Nat.pow 2 width.bits : Nat) := by cases width <;> decide
      have hlow : 0 ≤ value.emod (Nat.pow 2 width.bits : Nat) :=
        Int.emod_nonneg value (Int.ne_of_gt hpositive)
      have hhigh : value.emod (Nat.pow 2 width.bits : Nat) < (Nat.pow 2 width.bits : Nat) :=
        Int.emod_lt_of_pos value hpositive
      simp only [holds, wrap, least, greatest, magnitude, Bool.false_eq_true, if_false,
        Bool.and_eq_true, decide_eq_true_eq]
      exact ⟨hlow, Int.le_sub_one_of_lt hhigh⟩
  | true =>
      have hlow := @Int.le_bmod value (Nat.pow 2 width.bits)
      have hhigh := @Int.bmod_lt value (Nat.pow 2 width.bits)
      cases width <;>
        simp [holds, wrap, least, greatest, magnitude, Width.bits] at hlow hhigh ⊢ <;> omega

/-- The integers of every kind are integers of documents. -/
theorem isDocumentInteger_of_holds {kind : IntegerKind} {value : Int}
    (h : kind.holds value = true) : IsDocumentInteger value := by
  obtain ⟨signed, width⟩ := kind
  cases signed <;> cases width <;>
    simp [holds, least, greatest, magnitude, Width.bits] at h <;>
      exact ⟨by omega, by omega⟩

theorem accepts_ofInt {kind : IntegerKind} {value : Int} (h : kind.holds value = true) :
    kind.accepts (.ofInt value) = true := by
  simp only [Json.ofInt, isDocumentInteger_of_holds h, dite_true, accepts, h]

end IntegerKind

namespace Scalar

/-- A scalar of a built-in scalar type has the shape of the type. -/
theorem simpleConforms_toJson (scalar : Scalar) {builtin : Builtin}
    (hscalar : builtin.isScalar = true) :
    Registry.simpleConforms builtin (scalar.toJson builtin) = true := by
  cases builtin with
  | integral kind => exact IntegerKind.accepts_ofInt (kind.holds_wrap _)
  | floating kind => cases kind <;> rfl
  | bool => rfl
  | _ => simp [Builtin.isScalar, Builtin.isNumeric, Builtin.isIntegral, Builtin.isFloating] at hscalar

end Scalar

namespace Registry

variable {registry : Registry}

theorem conforms_simple_iff {reference : TypeReference} {builtin : Builtin} {value : Json}
    (hbuiltin : registry.builtin? reference.handle = some builtin)
    (hsimple : builtin.isScalar = true ∨ builtin = .string) :
    registry.conforms reference value = true ↔ simpleConforms builtin value = true := by
  obtain ⟨definition, hfound, hbody⟩ := builtin?_eq_some.mp hbuiltin
  rw [conforms, hfound]
  simp only [hbody]
  cases builtin with
  | list => exact absurd hsimple (by decide)
  | array => exact absurd hsimple (by decide)
  | own => exact absurd hsimple (by decide)
  | variant => exact absurd hsimple (by decide)
  | map => exact absurd hsimple (by decide)
  | _ => rfl

/-- A conversion leads to a scalar type or to text. -/
theorem simpleConforms_apply {source target : Builtin} {conversion : Conversion} (value : Json)
    (h : conversion? source target = some conversion) :
    (target.isScalar = true ∨ target = .string) ∧
      simpleConforms target (conversion.apply target value) = true := by
  unfold conversion? at h
  split at h
  next =>
      split at h
      next htarget =>
          split at h
          · exact absurd h (by simp)
          · cases h
            exact ⟨Or.inl htarget, Scalar.simpleConforms_toJson _ htarget⟩
      next =>
          split at h
          next hstring =>
              cases h
              subst hstring
              exact ⟨Or.inr rfl, rfl⟩
          next => exact absurd h (by simp)
  next =>
      split at h
      next hboth =>
          cases h
          exact ⟨Or.inl hboth.2, Scalar.simpleConforms_toJson _ hboth.2⟩
      next => exact absurd h (by simp)

/-- A value that is converted to another type conforms to that type. -/
theorem WellFormed.conforms_convert (hwf : registry.WellFormed) {source target : TypeReference}
    (hlegal : registry.Legal target) (hne : source ≠ target) (value : Json) :
    registry.conforms target (registry.convert source target value) = true := by
  rw [convert, if_neg hne]
  split
  next conversion builtin hconversion =>
      simp only [conversionBetween?, Option.bind_eq_bind, Option.bind_eq_some_iff, Option.pure_def,
        Option.some.injEq, Prod.mk.injEq] at hconversion
      obtain ⟨a, -, b, hb, found, hfound, rfl, rfl⟩ := hconversion
      obtain ⟨hsimple, hfits⟩ := simpleConforms_apply value hfound
      exact (conforms_simple_iff hb hsimple).mpr hfits
  next => exact hwf.conforms_defaultValue hlegal

end Registry
end LiveSchema
