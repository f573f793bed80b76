import LiveSchema.Proofs.Reachable
import LiveSchema.Proofs.Value.Conformance

/-!
# What a conversion leaves

Between legal types, a conversion makes a conforming value of any value at all: it converts scalars and
texts into each other, and puts the default of the new type in the place of everything else.  Only a
value that keeps its type, or had the type that holds nothing, counts as preserved.
-/

namespace LiveSchema
namespace Registry

variable {registry : Registry} {source target : TypeReference}

/-- A legal reference to a type without parameters has no arguments. -/
theorem Legal.eq_plain (hlegal : registry.Legal source) {definition : TypeDefinition}
    (hfound : registry.get? source.handle = some definition) (hnone : definition.parameters = []) :
    source = .plain source.handle := by
  obtain ⟨found, hfound', -, hsuits⟩ := legal_iff.mp hlegal
  obtain rfl := Option.some.inj (hfound.symm.trans hfound')
  obtain ⟨handle, arguments⟩ := source
  cases arguments with
  | nil => rfl
  | cons first rest =>
      obtain ⟨parameter, hparameter, -⟩ := hsuits 0 first rfl
      simp [TypeDefinition.parameterFor?, hnone] at hparameter

/-- A value whose type changes is preserved only if it had the type that holds nothing. -/
theorem WellFormed.eq_void_of_classify (hwf : registry.WellFormed) (hlegal : registry.Legal source)
    (hne : source ≠ target) (h : registry.classify source target = .preserved) :
    source = .plain void := by
  have hvoid : source.handle = void := by
    unfold classify at h
    split at h
    next hsame => exact hsame.resolve_left hne
    next =>
        split at h
        · exact absurd h (by simp)
        · split at h
          · split at h <;> exact absurd h (by simp)
          · exact absurd h (by simp)
  have hfound : registry.get? source.handle = some (.ofBuiltin .void) :=
    hvoid ▸ hwf.toFormed.get?_void
  rw [hlegal.eq_plain hfound rfl, hvoid]

end Registry

namespace Database

variable {digest : String → String} {database : Database}

/-- Between legal types of a database that can be reached, a value stays the same and counts as
preserved if its type does.  Otherwise it conforms to its new type, is the default of this type where
no conversion is known, and counts as preserved only if it had the type that holds nothing.  The
default exists and conforms for every legal type. -/
theorem converted_of_reachable (h : Reachable digest database) {source target : TypeReference}
    (hsource : Legality.checkReference database.content.registry source = .ok ())
    (htarget : Legality.checkReference database.content.registry target = .ok ()) (value : Json) :
    let registry := database.content.registry
    let converted := registry.convert source target value
    (source = target → converted = value ∧ registry.classify source target = .preserved) ∧
      (source ≠ target →
        registry.conforms target converted = true ∧
          (registry.conversionBetween? source target = none →
            registry.default? target = some converted) ∧
          (registry.classify source target = .preserved → source = .plain Registry.void)) ∧
      ∃ built, registry.default? target = some built ∧ registry.conforms target built = true := by
  intro registry converted
  have hwf := h.wellFormed
  rw [Legality.checkReference_eq_ok] at hsource htarget
  obtain ⟨built, hbuilt⟩ := hwf.exists_default? target
  refine ⟨fun hsame => ?_, fun hne => ⟨?_, fun hnone => ?_, ?_⟩, built, hbuilt, ?_⟩
  · exact ⟨if_pos hsame, if_pos (Or.inl hsame)⟩
  · exact hwf.conforms_convert htarget hne value
  · have hconverted : converted = registry.defaultValue target := by
      simp only [converted, Registry.convert, if_neg hne, hnone]
    rw [hconverted, Registry.defaultValue, hbuilt, Option.getD_some]
  · exact hwf.eq_void_of_classify hsource hne
  · exact hwf.conforms_defaultWithin? htarget hbuilt

/-- A text under the type of integers gives way to an array of two structs with a field each. -/
theorem converted_of_malformed_value :
    let structs := (inMemory.apply id ⟨0, 0⟩ NameMap.empty .addStruct).database
    let database := (structs.apply id ⟨0, 0⟩ NameMap.empty (.addField ⟨37⟩)).database
    let target : TypeReference := ⟨⟨16⟩, [.type (.plain ⟨37⟩), .size 2]⟩
    let converted := database.content.registry.convert (.plain ⟨5⟩) target (.string "x")
    database.content.registry.conforms target converted = true ∧
      database.content.registry.default? target = some converted := by
  intro structs database target converted
  have hfresh : Reachable id inMemory := .fresh
  have hreachable : Reachable id database :=
    (hfresh.step ⟨0, 0⟩ NameMap.empty .addStruct).step ⟨0, 0⟩ NameMap.empty (.addField ⟨37⟩)
  have hsource : Legality.checkReference database.content.registry (.plain ⟨5⟩) = .ok () := by
    decide +kernel
  have htarget : Legality.checkReference database.content.registry target = .ok () := by
    decide +kernel
  obtain ⟨-, hother, -⟩ := converted_of_reachable hreachable hsource htarget (.string "x")
  obtain ⟨hconforms, hdefault, -⟩ := hother (by decide)
  exact ⟨hconforms, hdefault (by decide +kernel)⟩

end Database
end LiveSchema
