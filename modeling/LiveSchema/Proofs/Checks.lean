import LiveSchema.Legality.Names
import LiveSchema.Legality.Flags
import Mathlib.Tactic.Common

/-!
# Checks that succeed

A check is a sequence of steps of which the first that fails ends it.  The lemmas here take a check
that succeeded apart into its steps, and say what each check of the library has found out.
-/

namespace LiveSchema

variable {α β : Type}

theorem bind_eq_ok {ε : Type} {first : Except ε α} {next : α → Except ε β} {answer : β} :
    first >>= next = .ok answer ↔ ∃ a, first = .ok a ∧ next a = .ok answer := by
  cases first with
  | error error => simp [bind, Except.bind]
  | ok a => simp [bind, Except.bind]

theorem refuse_ne_ok {violation : Violation} {answer : α} :
    (refuse violation : Except Error α) ≠ .ok answer := by
  rintro ⟨⟩

theorem pure_eq_ok {ε : Type} {a answer : α} : (pure a : Except ε α) = .ok answer ↔ a = answer :=
  ⟨fun h => Except.ok.inj h, fun h => congrArg Except.ok h⟩

/-- A condition on which a check refuses does not hold where it succeeds. -/
theorem refuse_if_eq_ok {condition : Prop} [Decidable condition] {violation : Violation}
    {next : α → Except Error β} {other : Except Error β} {answer : β} :
    (if condition then refuse violation >>= next else other) = .ok answer ↔
      ¬ condition ∧ other = .ok answer := by
  by_cases h : condition
  · simp [h, refuse, bind, Except.bind]
  · simp [h]

/-- A check of every element succeeds if it does so for each. -/
theorem forM_eq_ok {check : α → Except Error Unit} {list : List α} {done : Unit} :
    list.forM check = .ok done ↔ ∀ a ∈ list, check a = .ok () := by
  induction list with
  | nil => simp [pure, Except.pure]
  | cons a rest ih =>
      rw [List.forM, bind_eq_ok, List.forall_mem_cons, ← ih]
      exact ⟨fun ⟨_, hfirst, hrest⟩ => ⟨hfirst, hrest⟩, fun ⟨hfirst, hrest⟩ => ⟨(), hfirst, hrest⟩⟩

namespace Legality

variable {registry : Registry} {record : TypeHandle}

theorem definitionOf_eq_ok {handle : TypeHandle} {definition : TypeDefinition} :
    definitionOf registry handle = .ok definition ↔ registry.get? handle = some definition := by
  unfold definitionOf
  cases registry.get? handle with
  | none => simp
  | some found => simp

theorem checkRecord_eq_ok {definition : TypeDefinition} :
    checkRecord registry record = .ok definition ↔
      registry.get? record = some definition ∧ definition.isRecord = true := by
  unfold checkRecord
  rw [bind_eq_ok]
  simp only [definitionOf_eq_ok]
  constructor
  · rintro ⟨found, hfound, hrest⟩
    split at hrest
    next hrecord =>
        obtain rfl := pure_eq_ok.mp hrest
        exact ⟨hfound, hrecord⟩
    next => exact absurd hrest refuse_ne_ok
  · rintro ⟨hfound, hrecord⟩
    exact ⟨definition, hfound, by simp [hrecord, pure, Except.pure]⟩

theorem checkReference_eq_ok {reference : TypeReference} {done : Unit} :
    checkReference registry reference = .ok done ↔
      referenceViolation? registry reference = none := by
  rw [checkReference]
  cases referenceViolation? registry reference with
  | none => simp
  | some violation => simp [refuse]

theorem checkIdentifier_eq_ok {name : String} {done : Unit} :
    checkIdentifier name = .ok done ↔ IsIdentifier name := by
  rw [checkIdentifier, IsIdentifier]
  cases nameViolation? name with
  | none => simp
  | some violation => simp [refuse]

/-- What a base type that passed its check is known to be. -/
structure FitsAsBase (registry : Registry) (record : TypeHandle) (candidate : TypeReference)
    (definition base : TypeDefinition) : Prop where
  found : registry.get? candidate.handle = some base
  variant : base.variant = definition.variant
  legal : referenceViolation? registry candidate = none
  below : registry.isParentOf record candidate.handle = false
  shadowed : shadowings registry record candidate.handle = []
  free : registry.findOpen? (registry.family record) candidate = none

theorem checkBase_eq_ok {candidate : Option TypeReference} {done : Unit} :
    checkBase registry record candidate = .ok done ↔
      ∃ definition, registry.get? record = some definition ∧ definition.isRecord = true ∧
        ∀ reference, candidate = some reference →
          ∃ base, FitsAsBase registry record reference definition base := by
  unfold checkBase
  rw [bind_eq_ok]
  simp only [checkRecord_eq_ok, and_assoc]
  refine exists_congr fun definition => and_congr_right fun _ => and_congr_right fun _ => ?_
  cases candidate with
  | none => simp [pure, Except.pure]
  | some candidate =>
      simp only [Option.some.injEq, forall_eq']
      cases hbase : registry.get? candidate.handle with
      | none =>
          constructor
          · exact fun h => absurd h refuse_ne_ok
          · rintro ⟨base, hfits⟩
            exact absurd (hbase.symm.trans hfits.found) (by simp)
      | some base =>
          simp only [ne_eq, refuse_if_eq_ok, bind_eq_ok, checkReference_eq_ok, not_not,
            Bool.not_eq_true]
          constructor
          · rintro ⟨hvariant, -, hlegal, hbelow, hshadowed, hfree⟩
            split at hfree
            next => exact absurd hfree refuse_ne_ok
            next hnone => exact ⟨base, hbase, hvariant, hlegal, hbelow, hshadowed, hnone⟩
          · rintro ⟨found, hfound, hvariant, hlegal, hbelow, hshadowed, hfree⟩
            obtain rfl := Option.some.inj (hbase.symm.trans hfound)
            exact ⟨hvariant, (), hlegal, hbelow, hshadowed, by simp [hfree, pure, Except.pure]⟩

theorem checkFieldType_eq_ok {candidate : TypeReference} {done : Unit} :
    checkFieldType registry record (some candidate) = .ok done ↔
      (∃ definition, registry.get? record = some definition ∧ definition.isRecord = true) ∧
        referenceViolation? registry candidate = none ∧
          registry.findOpen? (registry.family record) candidate = none := by
  unfold checkFieldType
  simp only [bind_eq_ok, checkRecord_eq_ok, checkReference_eq_ok]
  constructor
  · rintro ⟨definition, hrecord, -, hlegal, hfree⟩
    split at hfree
    next => exact absurd hfree refuse_ne_ok
    next hnone => exact ⟨⟨definition, hrecord⟩, hlegal, hnone⟩
  · rintro ⟨⟨definition, hrecord⟩, hlegal, hfree⟩
    exact ⟨definition, hrecord, (), hlegal, by simp [hfree, pure, Except.pure]⟩

/-- A field name passes its check if it is legal and free in the whole family of the record. -/
theorem checkFieldName_eq_ok {current : Option String} {name : String} {done : Unit} :
    checkFieldName registry record current name = .ok done ↔
      (∃ definition, registry.get? record = some definition ∧ definition.isRecord = true) ∧
        IsIdentifier name ∧ conflictingField? registry record current name = none ∧
          conflictingDescendant? registry record name = none := by
  unfold checkFieldName
  simp only [bind_eq_ok, checkRecord_eq_ok, checkIdentifier_eq_ok]
  constructor
  · rintro ⟨definition, hrecord, -, hname, hrest⟩
    split at hrest
    next =>
        split at hrest
        next => exact absurd hrest refuse_ne_ok
        next => exact absurd hrest refuse_ne_ok
    next hconflict =>
        split at hrest
        next => exact absurd hrest refuse_ne_ok
        next hdescendant => exact ⟨⟨definition, hrecord⟩, hname, hconflict, hdescendant⟩
  · rintro ⟨⟨definition, hrecord⟩, hname, hconflict, hdescendant⟩
    exact ⟨definition, hrecord, (), hname, by simp [hconflict, hdescendant, pure, Except.pure]⟩

/-- A type name passes its check if it is legal and no other type has it. -/
theorem checkTypeName_eq_ok {handle : TypeHandle} {name : String} {done : Unit} :
    checkTypeName registry handle name = .ok done ↔
      IsIdentifier name ∧ ∀ existing, registry.resolve? name = some existing →
        existing = handle := by
  unfold checkTypeName
  simp only [bind_eq_ok, checkIdentifier_eq_ok, exists_and_left]
  refine and_congr_right fun _ => ?_
  cases hfound : registry.resolve? name with
  | none => simp [pure, Except.pure]
  | some existing =>
      simp only [Option.some.injEq, forall_eq']
      by_cases hsame : existing = handle
      · simp [hsame, pure, Except.pure]
      · simp only [hsame, if_false, iff_false]
        rintro ⟨-, h⟩
        split at h <;> exact absurd h refuse_ne_ok

theorem checkEnumeration_eq_ok {handle : TypeHandle} {definition : TypeDefinition}
    {enumeration : Enumeration} :
    checkEnumeration registry handle = .ok (definition, enumeration) ↔
      registry.get? handle = some definition ∧
        definition.body = .enumeration enumeration := by
  unfold checkEnumeration
  simp only [bind_eq_ok, definitionOf_eq_ok]
  constructor
  · rintro ⟨found, hfound, hrest⟩
    split at hrest
    next held hheld =>
        cases pure_eq_ok.mp hrest
        refine ⟨hfound, ?_⟩
        unfold TypeDefinition.enumeration? at hheld
        split at hheld
        next hbody => rw [hbody, Option.some.inj hheld]
        next => exact absurd hheld (by simp)
    next => exact absurd hrest refuse_ne_ok
  · rintro ⟨hfound, hbody⟩
    exact ⟨definition, hfound, by simp [TypeDefinition.enumeration?, hbody, pure, Except.pure]⟩

/-- No enumerator at another position has the name. -/
theorem enumeratorTaken_eq_false {enumeration : Enumeration} {index : Option Nat} {name : String} :
    enumeratorTaken enumeration index name = false ↔
      ∀ (position : Nat) (enumerator : Enumerator),
        enumeration.enumerators[position]? = some enumerator → some position ≠ index →
          enumerator.name ≠ name := by
  simp only [enumeratorTaken, List.any_eq_false, List.mem_zipIdx_iff_getElem?, Prod.forall,
    Bool.and_eq_true, decide_eq_true_eq, not_and, ne_eq]
  exact forall_comm

theorem checkEnumeratorName_eq_ok {handle : TypeHandle} {index : Option Nat} {name : String}
    {done : Unit} :
    checkEnumeratorName registry handle index name = .ok done ↔
      ∃ definition enumeration, registry.get? handle = some definition ∧
        definition.body = .enumeration enumeration ∧ IsIdentifier name ∧
          enumeratorTaken enumeration index name = false := by
  unfold checkEnumeratorName
  simp only [bind_eq_ok, Prod.exists, checkEnumeration_eq_ok, checkIdentifier_eq_ok, and_assoc]
  refine exists_congr fun definition => exists_congr fun enumeration => and_congr_right fun _ =>
    and_congr_right fun _ => ?_
  cases enumeratorTaken enumeration index name <;> simp [refuse, pure, Except.pure]

end Legality
end LiveSchema
