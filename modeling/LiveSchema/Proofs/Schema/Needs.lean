import LiveSchema.Proofs.Schema.Edits
import LiveSchema.Schema.Emission

/-!
# What a type needs complete

`Registry.Needs` relates a type to its base type and to what the types of its own fields hold by value.
Containment follows effective fields instead, so a path of needs is a path of containment with a few
base types behind it.  Hence no type needs itself.  The dependencies that the library collects are
what a type needs.
-/

namespace LiveSchema

/-- What steps add to a list one after the other. -/
theorem mem_foldl_iff {α : Type u} {β : Type v} {step : List α → β → List α} {P : β → α → Prop}
    {list : List β} (hstep : ∀ found, ∀ b ∈ list, ∀ a, a ∈ step found b ↔ a ∈ found ∨ P b a)
    (found : List α) (a : α) :
    a ∈ list.foldl step found ↔ a ∈ found ∨ ∃ b ∈ list, P b a := by
  induction list generalizing found with
  | nil => simp
  | cons first rest ih =>
      rw [List.foldl_cons, ih fun found b hb => hstep found b (List.mem_cons_of_mem _ hb),
        hstep found first List.mem_cons_self, List.exists_mem_cons_iff, or_assoc]

namespace Registry

open Relation

variable {registry : Registry} {handle part : TypeHandle}

/-- A type needs another one complete: its base type, and what an own field of it holds by value. -/
inductive Needs (registry : Registry) (handle part : TypeHandle) : Prop
  | base (h : registry.DerivesFrom handle part)
  | field {field : Field} (hfield : field ∈ registry.ownFields handle)
      (h : registry.Holds field.type part)

/-! ## No type needs itself -/

/-- A path of needs leads through base types only, or it leads by value to a type that derives from its
end. -/
theorem derives_or_byValue_of_needs (hacyclic : Acyclic registry.DerivesFrom)
    (h : TransGen registry.Needs handle part) :
    TransGen registry.DerivesFrom handle part ∨
      ∃ between, TransGen registry.ByValue handle between ∧ registry.Extends between part := by
  induction h with
  | single hstep =>
      cases hstep with
      | base hbase => exact Or.inl (.single hbase)
      | field hfield hholds =>
          refine Or.inr ⟨_, .single ⟨_, ?_, hholds⟩, .refl⟩
          exact (mem_allFields_iff hacyclic).mpr ⟨handle, .refl, hfield⟩
  | @tail last next _ hstep ih =>
      cases hstep with
      | base hbase =>
          rcases ih with hderived | ⟨between, hpath, hextends⟩
          · exact Or.inl (hderived.tail hbase)
          · exact Or.inr ⟨between, hpath, hextends.tail hbase⟩
      | field hfield hholds =>
          refine Or.inr ⟨next, ?_, .refl⟩
          rcases ih with hderived | ⟨between, hpath, hextends⟩
          · -- the field is inherited along the base types
            exact .single ⟨_, (mem_allFields_iff hacyclic).mpr
              ⟨last, hderived.to_reflTransGen, hfield⟩, hholds⟩
          · exact hpath.tail ⟨_, (mem_allFields_iff hacyclic).mpr ⟨last, hextends, hfield⟩, hholds⟩

theorem WellFormed.acyclic_needs (hwf : registry.WellFormed) : Acyclic registry.Needs := by
  intro handle hcircle
  rcases derives_or_byValue_of_needs hwf.inheritance hcircle with hderived | ⟨between, hpath, hextends⟩
  · exact hwf.inheritance handle hderived
  · -- what extends the type inherits the field with which the path begins
    obtain ⟨first, ⟨field, hfield, hholds⟩, hrest⟩ := TransGen.head'_iff.mp hpath
    obtain ⟨owner, howner, hown⟩ := (mem_allFields_iff hwf.inheritance).mp hfield
    refine hwf.containment between (TransGen.head' ⟨field, ?_, hholds⟩ hrest)
    exact (mem_allFields_iff hwf.inheritance).mpr ⟨owner, hextends.trans howner, hown⟩

/-- A type that needs another one is a record. -/
theorem Formed.isRecord_of_needs (hformed : registry.Formed) (h : registry.Needs handle part) :
    registry.IsRecord handle := by
  cases h with
  | base hbase =>
      obtain ⟨definition, -, hfound, -, hrecord, -⟩ := hformed.record_of_baseOf? hbase
      exact ⟨definition, hfound, hrecord⟩
  | field hfield _ =>
      obtain ⟨definition, hfound, hrecord, -⟩ := get?_of_mem_ownFields hfield
      exact ⟨definition, hfound, hrecord⟩

/-! ## The dependencies found -/

theorem collectArguments_eq_foldl (definition : TypeDefinition) (index : Nat)
    (found : List TypeHandle) (arguments : List TemplateArgument) :
    registry.collectArguments definition index found arguments =
      (definition.completeArguments index arguments).foldl registry.collectRequired found := by
  induction arguments generalizing index found with
  | nil => simp [collectArguments, TypeDefinition.completeArguments]
  | cons argument rest ih =>
      cases argument with
      | size count => rw [collectArguments, TypeDefinition.completeArguments, ih]
      | type inner =>
          rw [collectArguments, TypeDefinition.completeArguments]
          split
          next => rw [ih, List.foldl_cons]
          next => rw [ih]

/-- The arguments of a reference that have to be complete. -/
def completeParts (registry : Registry) (reference : TypeReference) : List TypeReference :=
  match registry.get? reference.handle with
  | none => []
  | some definition => definition.completeArguments 0 reference.arguments

theorem mem_completeParts {reference inner : TypeReference} :
    inner ∈ registry.completeParts reference ↔ registry.CompleteArgument reference inner := by
  rw [completeParts, CompleteArgument]
  cases registry.get? reference.handle with
  | none => simp
  | some definition => simp [TypeDefinition.mem_completeArguments]

/-- The type of a reference is added if it is new, and then what its complete arguments add. -/
theorem collectRequired_eq (found : List TypeHandle) (reference : TypeReference) :
    registry.collectRequired found reference =
      (registry.completeParts reference).foldl registry.collectRequired
        (if reference.handle ∈ found then found else found ++ [reference.handle]) := by
  obtain ⟨handle, arguments⟩ := reference
  rw [collectRequired, completeParts]
  cases registry.get? handle with
  | none => rfl
  | some definition => exact collectArguments_eq_foldl definition 0 _ arguments

/-- The type stands in the reference where only arguments lead to that have to be complete. -/
def Demands (registry : Registry) (reference : TypeReference) (part : TypeHandle) : Prop :=
  ∃ inner, ReflTransGen registry.CompleteArgument reference inner ∧ inner.handle = part

theorem demands_iff {reference : TypeReference} : registry.Demands reference part ↔
    part = reference.handle ∨
      ∃ inner, registry.CompleteArgument reference inner ∧ registry.Demands inner part := by
  constructor
  · rintro ⟨last, hpath, rfl⟩
    rcases hpath.cases_head with rfl | ⟨inner, hargument, hrest⟩
    · exact Or.inl rfl
    · exact Or.inr ⟨inner, hargument, last, hrest, rfl⟩
  · rintro (rfl | ⟨inner, hargument, last, hrest, hlast⟩)
    · exact ⟨reference, .refl, rfl⟩
    · exact ⟨last, .head hargument hrest, hlast⟩

/-- On every registry, a reference adds what it demands, whether its type was found before or not. -/
theorem mem_collectRequired (found : List TypeHandle) (reference : TypeReference) :
    part ∈ registry.collectRequired found reference ↔
      part ∈ found ∨ registry.Demands reference part := by
  induction reference using TypeReference.inner_induction generalizing found part with
  | step reference ih =>
      have hadded : part ∈ (if reference.handle ∈ found then found
          else found ++ [reference.handle]) ↔ part ∈ found ∨ part = reference.handle := by
        split
        next hold => exact ⟨Or.inl, fun h => h.elim id fun hsame => hsame ▸ hold⟩
        next => rw [List.mem_append, List.mem_singleton]
      rw [collectRequired_eq, mem_foldl_iff (P := registry.Demands) fun found inner hinner part => ?_,
        hadded, or_assoc, demands_iff]
      · simp only [mem_completeParts]
      · obtain ⟨-, position, -, hposition, -⟩ := mem_completeParts.mp hinner
        exact ih inner (List.mem_of_getElem? hposition) found

/-- Nothing is added twice. -/
theorem nodup_collectRequired {found : List TypeHandle} (hnodup : found.Nodup)
    (reference : TypeReference) : (registry.collectRequired found reference).Nodup := by
  induction reference using TypeReference.inner_induction generalizing found with
  | step reference ih =>
      have hadded : (if reference.handle ∈ found then found
          else found ++ [reference.handle]).Nodup := by
        split
        next => exact hnodup
        next hnew => exact List.nodup_append_comm.mp (List.nodup_cons.mpr ⟨hnew, hnodup⟩)
      rw [collectRequired_eq]
      refine List.foldlRecOn _ _ hadded fun found hfound inner hinner => ?_
      obtain ⟨-, position, -, hposition, -⟩ := mem_completeParts.mp hinner
      exact ih inner (List.mem_of_getElem? hposition) hfound

/-- What a legal reference demands is what it holds by value. -/
theorem Formed.demands_iff_holds (hformed : registry.Formed) {reference : TypeReference}
    (hlegal : registry.Legal reference) :
    registry.Demands reference part ↔ registry.Holds reference part := by
  induction reference using TypeReference.inner_induction with
  | step reference ih =>
      obtain ⟨definition, hfound⟩ := hlegal.get?
      have hparts : registry.completeParts reference =
          definition.completeArguments 0 reference.arguments := by
        rw [completeParts, hfound]
      rw [demands_iff, hformed.holds_iff hlegal hfound]
      refine or_congr_right (exists_congr fun inner => ?_)
      rw [← mem_completeParts, hparts]
      refine and_congr_right fun hinner => ?_
      obtain ⟨position, hposition, -⟩ := TypeDefinition.mem_completeArguments.mp hinner
      have hmem := List.mem_of_getElem? hposition
      exact ih inner hmem (hlegal.inner hmem)

/-- The base type of a type is held by its reference, which has no arguments. -/
theorem Formed.holds_base_iff (hformed : registry.Formed) {definition : TypeDefinition}
    {base : TypeReference} (hfound : registry.get? handle = some definition)
    (hbase : definition.base = some base) :
    registry.Holds base part ↔ part = base.handle := by
  obtain ⟨hrecord, hlegal, found, hbaseFound, hvariant⟩ := hformed.bases _ _ _ hfound hbase
  have hbaseRecord := (TypeDefinition.isRecord_eq_of_variant hvariant).trans hrecord
  have hparameters : found.parameters = [] :=
    hformed.parameters _ found hbaseFound (TypeDefinition.isBuiltin_of_isRecord hbaseRecord)
  rw [hformed.holds_iff hlegal hbaseFound]
  refine or_iff_left ?_
  rintro ⟨inner, hinner, -⟩
  obtain ⟨position, -, hneeds⟩ := TypeDefinition.mem_completeArguments.mp hinner
  obtain ⟨parameter, hparameter, -⟩ := (Option.any_eq_true _ _).mp hneeds
  exact absurd (TypeDefinition.mem_of_parameterFor? hparameter) (by simp [hparameters])

/-- The dependencies are collected from the base type first and then from the own fields. -/
theorem requiredDependencies_eq (registry : Registry) (handle : TypeHandle) :
    registry.requiredDependencies handle =
      (((registry.get? handle).bind TypeDefinition.base).toList ++
        (registry.ownFields handle).map Field.type).foldl registry.collectRequired [] := by
  rw [requiredDependencies, List.foldl_append, List.foldl_map]
  cases hfound : registry.get? handle with
  | none =>
      have hfields : registry.ownFields handle = [] := by
        simp [ownFields, record?, hfound]
      rw [hfields]
      rfl
  | some definition =>
      dsimp only [Option.bind_some]
      cases definition.base with
      | none => rfl
      | some base => rfl

theorem mem_references_iff {reference : TypeReference} :
    reference ∈ ((registry.get? handle).bind TypeDefinition.base).toList ++
        (registry.ownFields handle).map Field.type ↔ registry.Refers handle reference := by
  rw [List.mem_append, Option.mem_toList, Option.bind_eq_some_iff, List.mem_map]
  constructor
  · rintro (⟨definition, hfound, hbase⟩ | ⟨field, hfield, rfl⟩)
    · exact .base hfound hbase
    · exact .field hfield
  · rintro (⟨hfound, hbase⟩ | hfield)
    · exact Or.inl ⟨_, hfound, hbase⟩
    · exact Or.inr ⟨_, hfield, rfl⟩

/-- On every registry, the dependencies are what the base type and the types of the own fields
demand. -/
theorem mem_requiredDependencies_iff : part ∈ registry.requiredDependencies handle ↔
    ∃ reference, registry.Refers handle reference ∧ registry.Demands reference part := by
  rw [requiredDependencies_eq, mem_foldl_iff (P := registry.Demands)
    fun found reference _ part => mem_collectRequired found reference]
  simp only [mem_references_iff, List.not_mem_nil, false_or]

theorem nodup_requiredDependencies (registry : Registry) (handle : TypeHandle) :
    (registry.requiredDependencies handle).Nodup := by
  rw [requiredDependencies_eq]
  exact List.foldlRecOn _ _ List.nodup_nil fun found hfound reference _ =>
    nodup_collectRequired hfound reference

/-- The dependencies collected are what a type needs. -/
theorem Formed.mem_requiredDependencies (hformed : registry.Formed) :
    part ∈ registry.requiredDependencies handle ↔ registry.Needs handle part := by
  rw [mem_requiredDependencies_iff]
  constructor
  · rintro ⟨reference, hrefers, hdemands⟩
    cases hrefers with
    | base hfound hbase =>
        have hholds := (hformed.demands_iff_holds (hformed.bases _ _ _ hfound hbase).2.1).mp hdemands
        obtain rfl := (hformed.holds_base_iff hfound hbase).mp hholds
        exact .base (by rw [DerivesFrom, baseOf?_of_get? hfound, hbase, Option.map_some])
    | field hfield =>
        exact .field hfield
          ((hformed.demands_iff_holds (hformed.fields handle _ hfield)).mp hdemands)
  · rintro (hderives | ⟨hfield, hholds⟩)
    · obtain ⟨base, hsome, rfl⟩ := Option.map_eq_some_iff.mp hderives
      obtain ⟨definition, hfound, hbase⟩ := Option.bind_eq_some_iff.mp hsome
      exact ⟨base, .base hfound hbase, base, .refl, rfl⟩
    · exact ⟨_, .field hfield,
        (hformed.demands_iff_holds (hformed.fields handle _ hfield)).mpr hholds⟩

end Registry
end LiveSchema
