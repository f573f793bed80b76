import LiveSchema.Proofs.Value.Conformance
import LiveSchema.Proofs.Value.Refit

/-!
# What new values hold

A value that takes the place of another one is a scalar, a text or a default.  A default holds the
defaults of its parts by value, so it holds no object of a record that its type avoids.
-/

namespace LiveSchema
namespace Registry

open Relation

variable {registry other : Registry} {record : TypeHandle} {reference : TypeReference}
  {value : Json} {child : Child}

/-! ## Defaults -/

/-- The value is what is built for a type inside records that are not complete yet. -/
def IsDefault (registry : Registry) (reference : TypeReference) (value : Json) : Prop :=
  ∃ within, registry.defaultWithin? within reference = some value

/-- The fields of a default object were built inside its record. -/
theorem WellFormed.isDefault_field (hwf : registry.WellFormed) {definition : TypeDefinition}
    {held : Record} (hfound : registry.get? reference.handle = some definition)
    (hbody : definition.body = .record held) (hdefault : registry.IsDefault reference value)
    (hchild : child ∈ registry.childValues reference value) :
    registry.Builds reference child.type ∧ registry.IsDefault child.type child.value := by
  obtain ⟨within, hvalue⟩ := hdefault
  have hkind : registry.kind? reference.handle = some .record := by
    rw [kind?_of_get? hfound, hbody]
    rfl
  rw [defaultWithin?_record hfound hbody] at hvalue
  split at hvalue
  · exact absurd hvalue (by simp)
  · obtain ⟨entries, hentries, rfl⟩ := Option.map_eq_some_iff.mp hvalue
    have hnames : (Entries.keys [] ++ (registry.allFields reference.handle).map Field.name).Nodup :=
      hwf.names reference.handle
    obtain rfl := defaultEntries?_eq hnames hentries
    obtain ⟨field, hfield, inner, hinner, rfl⟩ := (mem_childValues_of_record hkind).mp hchild
    rw [List.nil_append, Field.value?_entriesOf (hwf.names _) hfield, Option.some.injEq] at hinner
    obtain ⟨built, hbuilt⟩ := forall_of_defaultEntries? hentries field hfield
    refine ⟨.field hfield, reference.handle :: within, ?_⟩
    rw [← hinner, hbuilt, Option.getD_some]

/-- The other built-in types have nothing in their defaults. -/
theorem childValues_simpleDefault {definition : TypeDefinition} {builtin : Builtin}
    (hfound : registry.get? reference.handle = some definition)
    (hbody : definition.body = .builtin builtin) (harray : builtin ≠ .array)
    (hvariant : builtin ≠ .variant) :
    registry.childValues reference (simpleDefault builtin) = [] := by
  simp only [childValues, parts, hfound, hbody]
  cases builtin with
  | array => exact absurd rfl harray
  | variant => exact absurd rfl hvariant
  | list => cases reference.typeArgument? 0 <;> rfl
  | own => cases reference.typeArgument? 0 <;> rfl
  | map => cases reference.typeArgument? 0 <;> cases reference.typeArgument? 1 <;> rfl
  | _ => rfl

/-- The elements of a default array, and what a default variant holds, were built as well. -/
theorem isDefault_argument {definition : TypeDefinition} {builtin : Builtin}
    (hfound : registry.get? reference.handle = some definition)
    (hbody : definition.body = .builtin builtin) (hdefault : registry.IsDefault reference value)
    (hchild : child ∈ registry.childValues reference value) :
    registry.Builds reference child.type ∧ registry.IsDefault child.type child.value := by
  obtain ⟨within, hvalue⟩ := hdefault
  have hbuiltin := builtin?_eq_some.mpr ⟨definition, hfound, hbody⟩
  by_cases harray : builtin = .array
  · subst harray
    rw [defaultWithin?_array hfound hbody, Option.map_eq_some_iff] at hvalue
    obtain ⟨element, helement, rfl⟩ := hvalue
    simp only [childValues, parts, hfound, hbody] at hchild
    split at hchild
    next type htype =>
        obtain ⟨⟨item, index⟩, hitem, rfl⟩ := List.mem_map.mp hchild
        obtain rfl : item = element :=
          List.eq_of_mem_replicate (List.fst_mem_of_mem_zipIdx hitem)
        rw [htype] at helement
        exact ⟨.element hbuiltin htype, within, helement⟩
    next => exact absurd hchild List.not_mem_nil
  · by_cases hvariant : builtin = .variant
    · subst hvariant
      rw [defaultWithin?_variant hfound hbody, Option.map_eq_some_iff] at hvalue
      obtain ⟨payload, hpayload, rfl⟩ := hvalue
      simp only [childValues, parts, hfound, hbody,
        show (Json.ofNat 0).unsigned? = some 0 by decide, Option.bind_some] at hchild
      split at hchild
      next type htype =>
          obtain rfl := List.mem_singleton.mp hchild
          rw [htype] at hpayload
          exact ⟨.alternative hbuiltin htype, within, hpayload⟩
      next => exact absurd hchild List.not_mem_nil
    · rw [defaultWithin?_simple hfound hbody harray hvariant, Option.some.injEq] at hvalue
      rw [← hvalue, childValues_simpleDefault hfound hbody harray hvariant] at hchild
      exact absurd hchild List.not_mem_nil

/-- What lies inside a default value was built for it. -/
theorem WellFormed.isDefault_of_mem_childValues (hwf : registry.WellFormed)
    (hdefault : registry.IsDefault reference value)
    (hchild : child ∈ registry.childValues reference value) :
    registry.Builds reference child.type ∧ registry.IsDefault child.type child.value := by
  cases hfound : registry.get? reference.handle with
  | none => exact absurd hchild (by simp [childValues, parts, hfound, Parts.children])
  | some definition =>
      cases hbody : definition.body with
      | enumeration enumeration =>
          exact absurd hchild (by simp [childValues, parts, hfound, hbody, Parts.children])
      | record held => exact hwf.isDefault_field hfound hbody hdefault hchild
      | builtin builtin => exact isDefault_argument hfound hbody hdefault hchild

/-- What is built for a type that avoids a record avoids it too. -/
theorem Avoids.of_builds {whole part : TypeReference} (h : registry.Avoids record whole)
    (hbuilds : registry.Builds whole part) : registry.Avoids record part := by
  intro held reached hholds hpath
  have hheld : ∀ builtin, registry.builtin? whole.handle = some builtin →
      builtin ≠ .ref → builtin ≠ .own → whole.typeArgument? 0 = some part →
        registry.Holds whole held := fun builtin hbuiltin href hown hargument =>
    holds_of_builtin hbuiltin href hown hargument hholds
  cases hbuilds with
  | field hfield => exact h whole.handle reached (.head whole) (.head ⟨_, hfield, hholds⟩ hpath)
  | element hbuiltin hargument =>
      exact h held reached (hheld _ hbuiltin (by simp) (by simp) hargument) hpath
  | alternative hbuiltin hargument =>
      exact h held reached (hheld _ hbuiltin (by simp) (by simp) hargument) hpath

/-- A default holds nothing that its type avoids. -/
theorem WellFormed.everywhere_default (hwf : registry.WellFormed)
    (havoids : registry.Avoids record reference) (hdefault : registry.IsDefault reference value) :
    registry.Everywhere (fun type _ => ¬ registry.Extends type.handle record) reference value := by
  intro type inner hwithin
  induction hwithin with
  | self reference value => exact havoids reference.handle reference.handle (.head reference) .refl
  | inside hinside _ ih =>
      obtain ⟨child, hchild, rfl, rfl⟩ := hinside
      obtain ⟨hbuilds, hinner⟩ := hwf.isDefault_of_mem_childValues hdefault hchild
      exact ih (havoids.of_builds hbuilds) hinner

/-- A type avoids a record after a change of the family of the record if it did so before. -/
theorem Avoids.of_agree (h : registry.Avoids record reference) (hregistry : registry.Formed)
    (hother : other.Formed)
    (hextends : ∀ handle, other.Extends handle record → registry.Extends handle record)
    (hfields : ∀ handle, ¬ registry.Extends handle record →
      other.allFields handle = registry.allFields handle) : other.Avoids record reference := by
  intro part reached hholds hpath hreached
  have hpart := holds_congr hregistry hother hholds
  -- no step of the way starts in the family, so all of them were there before
  have hold : ReflTransGen registry.ByValue part reached := by
    clear hreached
    induction hpath with
    | refl => exact .refl
    | @tail middle last _ hstep ih =>
        obtain ⟨field, hfield, hheld⟩ := hstep
        rw [hfields middle (h part middle hpart ih)] at hfield
        exact ih.tail ⟨field, hfield, holds_congr hregistry hother hheld⟩
  exact h part reached hpart hold (hextends reached hreached)

/-! ## Converted values -/

/-- Scalars and texts have nothing inside. -/
theorem childValues_of_simple {builtin : Builtin}
    (hbuiltin : registry.builtin? reference.handle = some builtin)
    (hsimple : builtin.isScalar = true ∨ builtin = .string) (value : Json) :
    registry.childValues reference value = [] := by
  obtain ⟨definition, hfound, hbody⟩ := builtin?_eq_some.mp hbuiltin
  have hnone : registry.parts reference value = .none := by
    simp only [parts, hfound, hbody]
    cases builtin with
    | list => exact absurd hsimple (by decide)
    | array => exact absurd hsimple (by decide)
    | own => exact absurd hsimple (by decide)
    | variant => exact absurd hsimple (by decide)
    | map => exact absurd hsimple (by decide)
    | _ => rfl
  rw [childValues, hnone, Parts.children]

theorem everywhere_of_childValues_eq_nil {property : TypeReference → Json → Prop}
    (h : property reference value) (hnone : registry.childValues reference value = []) :
    registry.Everywhere property reference value := by
  intro type inner hwithin
  cases hwithin with
  | self => exact h
  | inside hinside _ =>
      obtain ⟨child, hchild, -⟩ := hinside
      exact absurd (hnone ▸ hchild) List.not_mem_nil

/-- A conversion leads between built-in types whose values have nothing inside. -/
theorem conversionBetween?_eq_some {source target : TypeReference}
    {conversion : Conversion} {builtin : Builtin}
    (h : registry.conversionBetween? source target = some (conversion, builtin)) :
    (∃ a, registry.builtin? source.handle = some a ∧ (a.isScalar = true ∨ a = .string)) ∧
      registry.builtin? target.handle = some builtin ∧
        (builtin.isScalar = true ∨ builtin = .string) := by
  simp only [conversionBetween?, Option.bind_eq_bind, Option.bind_eq_some_iff, Option.pure_def,
    Option.some.injEq, Prod.mk.injEq] at h
  obtain ⟨a, ha, b, hb, found, hfound, rfl, rfl⟩ := h
  refine ⟨⟨a, ha, ?_⟩, hb, (simpleConforms_apply .null hfound).1⟩
  unfold conversion? at hfound
  split at hfound
  next hscalar => exact Or.inl hscalar
  next =>
      split at hfound
      next hboth => exact Or.inr hboth.1
      next => exact absurd hfound (by simp)

/-- What a conversion to another type makes holds nothing that this type avoids. -/
theorem WellFormed.everywhere_convert (hwf : registry.WellFormed)
    {source target : TypeReference} (hne : source ≠ target)
    (havoids : registry.Avoids record target) (value : Json) :
    registry.Everywhere (fun type _ => ¬ registry.Extends type.handle record) target
      (registry.convert source target value) := by
  rw [convert, if_neg hne]
  split
  next conversion builtin hconversion =>
      obtain ⟨-, hbuiltin, hsimple⟩ := conversionBetween?_eq_some hconversion
      exact everywhere_of_childValues_eq_nil
        (havoids target.handle target.handle (.head target) .refl)
        (childValues_of_simple hbuiltin hsimple _)
  next =>
      obtain ⟨built, hbuilt⟩ := hwf.exists_default? target
      rw [defaultValue, hbuilt, Option.getD_some]
      exact hwf.everywhere_default havoids ⟨[], hbuilt⟩

end Registry
end LiveSchema
