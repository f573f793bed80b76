import LiveSchema.Proofs.Schema.Formed
import LiveSchema.Proofs.Schema.Search

/-!
# What a record holds by value

`Registry.Holds` says where a type occurs outside what pointers point at, and `Registry.ByValue` is the
relation between records and the types that the types of their fields hold.  In a formed registry, what
can be reached from a legal reference is what can be reached along this relation from the types that it
holds.
-/

namespace LiveSchema

open Relation

namespace TypeDefinition

theorem mem_of_parameterFor? {definition : TypeDefinition} {index : Nat}
    {parameter : TemplateParameter} (h : definition.parameterFor? index = some parameter) :
    parameter ∈ definition.parameters := by
  unfold parameterFor? at h
  split at h
  next hat =>
      cases h
      exact List.mem_of_getElem? hat
  next =>
      obtain ⟨hlast, -⟩ := Option.filter_eq_some_iff.mp h
      exact List.mem_of_getLast? hlast

end TypeDefinition

namespace Builtin

/-- What a pointer points at need not be complete. -/
theorem mustBeComplete_eq_false {builtin : Builtin} {parameter : TemplateParameter}
    (hpointer : builtin = .ref ∨ builtin = .own) (hmem : parameter ∈ builtin.parameters) :
    parameter.mustBeComplete = false := by
  rcases hpointer with rfl | rfl <;> rcases List.mem_singleton.mp hmem with rfl <;> decide

/-- Only pointers take arguments that need not be complete. -/
theorem mustBeComplete_of_mem {builtin : Builtin} {parameter : TemplateParameter}
    (href : builtin ≠ .ref) (hown : builtin ≠ .own) (hmem : parameter ∈ builtin.parameters) :
    parameter.mustBeComplete = true := by
  cases builtin <;> simp_all [parameters] <;>
    first
      | decide
      | rcases hmem with rfl | rfl <;> decide

end Builtin

namespace Registry

variable {registry : Registry} {opened closed : List TypeHandle}

/-- The type is a pointer, which does not hold what it points at. -/
def IsPointer (registry : Registry) (handle : TypeHandle) : Prop :=
  registry.builtin? handle = some .ref ∨ registry.builtin? handle = some .own

/-- The type occurs in the reference, and not below a pointer. -/
inductive Holds (registry : Registry) : TypeReference → TypeHandle → Prop
  | head (reference : TypeReference) : Holds registry reference reference.handle
  | argument {reference inner : TypeReference} {part : TypeHandle}
      (hpointer : ¬ registry.IsPointer reference.handle)
      (hmem : TemplateArgument.type inner ∈ reference.arguments)
      (h : Holds registry inner part) : Holds registry reference part

/-- A field of the record, its own or an inherited one, holds the type by value. -/
def ByValue (registry : Registry) (record part : TypeHandle) : Prop :=
  ∃ field ∈ registry.allFields record, registry.Holds field.type part

/-- What a reference holds depends on which types are pointers. -/
theorem Holds.congr {other : Registry} {reference : TypeReference} {part : TypeHandle}
    (hpointer : ∀ handle, reference.mentions handle = true →
      registry.IsPointer handle → other.IsPointer handle)
    (h : other.Holds reference part) : registry.Holds reference part := by
  induction h with
  | head reference => exact .head reference
  | argument hnot hmem _ ih =>
      refine .argument (fun hold => hnot ?_) hmem (ih fun handle hmentions => ?_)
      · exact hpointer _ (TypeReference.mentions_head _) hold
      · exact hpointer handle (TypeReference.mentions_of_mem hmem hmentions)

/-- Every argument of a legal reference has to be complete unless it is below a pointer. -/
theorem Formed.mem_completeArguments (hformed : registry.Formed)
    {reference inner : TypeReference} {definition : TypeDefinition}
    (hlegal : registry.Legal reference)
    (hfound : registry.get? reference.handle = some definition)
    (hpointer : ¬ registry.IsPointer reference.handle)
    (hmem : TemplateArgument.type inner ∈ reference.arguments) :
    inner ∈ definition.completeArguments 0 reference.arguments := by
  obtain ⟨position, hposition⟩ := List.mem_iff_getElem?.mp hmem
  refine TypeDefinition.mem_completeArguments.mpr ⟨position, hposition, ?_⟩
  obtain ⟨found, hfound', -, hsuits⟩ := legal_iff.mp hlegal
  obtain rfl : definition = found := Option.some.inj (hfound.symm.trans hfound')
  obtain ⟨parameter, hparameter, -⟩ := hsuits position _ hposition
  have hdeclared := TypeDefinition.mem_of_parameterFor? hparameter
  cases hbody : definition.body with
  | builtin builtin =>
      obtain rfl := hformed.eq_ofBuiltin hfound hbody
      have hbuiltin : registry.builtin? reference.handle = some builtin :=
        builtin?_eq_some.mpr ⟨_, hfound, rfl⟩
      have hcomplete : parameter.mustBeComplete = true := by
        refine Builtin.mustBeComplete_of_mem ?_ ?_ hdeclared
        · rintro rfl
          exact hpointer (Or.inl hbuiltin)
        · rintro rfl
          exact hpointer (Or.inr hbuiltin)
      simp [TypeDefinition.needsComplete, hparameter, hcomplete]
  | enumeration _ =>
      have hnone := hformed.parameters _ definition hfound
        (TypeDefinition.isBuiltin_of_enumeration hbody)
      exact absurd (hnone ▸ hdeclared) List.not_mem_nil
  | record _ =>
      have hnone := hformed.parameters _ definition hfound (TypeDefinition.isBuiltin_of_record hbody)
      exact absurd (hnone ▸ hdeclared) List.not_mem_nil

/-- No argument of a pointer has to be complete. -/
theorem Formed.not_isPointer_of_mem_completeArguments (hformed : registry.Formed)
    {handle : TypeHandle} {definition : TypeDefinition} {index : Nat}
    {arguments : List TemplateArgument} {inner : TypeReference}
    (hfound : registry.get? handle = some definition)
    (hmem : inner ∈ definition.completeArguments index arguments) :
    ¬ registry.IsPointer handle := by
  have hnone : ∀ builtin, builtin = .ref ∨ builtin = .own →
      registry.builtin? handle ≠ some builtin := by
    intro builtin hpointer hbuiltin
    obtain rfl := Option.some.inj (hfound.symm.trans (hformed.get?_of_builtin? hbuiltin))
    obtain ⟨position, -, hneeds⟩ := TypeDefinition.mem_completeArguments.mp hmem
    obtain ⟨parameter, hparameter, hcomplete⟩ := Option.any_eq_true _ _ |>.mp hneeds
    rw [Builtin.mustBeComplete_eq_false hpointer
      (TypeDefinition.mem_of_parameterFor? hparameter)] at hcomplete
    exact absurd hcomplete (by decide)
  rintro (href | hown)
  · exact hnone .ref (Or.inl rfl) href
  · exact hnone .own (Or.inr rfl) hown

/-- A legal reference holds its type and what its complete arguments hold. -/
theorem Formed.holds_iff (hformed : registry.Formed) {reference : TypeReference}
    {definition : TypeDefinition} {part : TypeHandle} (hlegal : registry.Legal reference)
    (hfound : registry.get? reference.handle = some definition) :
    registry.Holds reference part ↔ part = reference.handle ∨
      ∃ inner ∈ definition.completeArguments 0 reference.arguments,
        registry.Holds inner part := by
  constructor
  · intro h
    cases h with
    | head => exact Or.inl rfl
    | argument hpointer hmem h =>
        exact Or.inr ⟨_, hformed.mem_completeArguments hlegal hfound hpointer hmem, h⟩
  · rintro (rfl | ⟨inner, hinner, h⟩)
    · exact .head reference
    · obtain ⟨position, hposition, -⟩ := TypeDefinition.mem_completeArguments.mp hinner
      exact .argument (hformed.not_isPointer_of_mem_completeArguments hfound hinner)
        (List.mem_of_getElem? hposition) h

/-! ## Records -/

theorem legal_of_mem_allFields (hformed : registry.Formed) {handle : TypeHandle} {field : Field}
    (h : field ∈ registry.allFields handle) : registry.Legal field.type := by
  rw [allFields_eq_flatMap, List.mem_flatMap] at h
  obtain ⟨owner, -, hfield⟩ := h
  exact hformed.fields owner field hfield

/-- Only records have fields, inherited ones included. -/
theorem Formed.isRecord_of_mem_allFields (hformed : registry.Formed)
    (hacyclic : Acyclic registry.DerivesFrom) {handle : TypeHandle} {field : Field}
    (h : field ∈ registry.allFields handle) : registry.IsRecord handle := by
  obtain ⟨owner, hextends, hfield⟩ := (mem_allFields_iff hacyclic).mp h
  rcases hextends.cases_head with rfl | ⟨base, hbase, -⟩
  · obtain ⟨d, hd, hrecord, -⟩ := get?_of_mem_ownFields hfield
    exact ⟨d, hd, hrecord⟩
  · obtain ⟨d, -, hd, -, hrecord, -⟩ := hformed.record_of_baseOf? hbase
    exact ⟨d, hd, hrecord⟩

/-! ## What can be reached -/

/-- What can be reached from a reference can be reached from something that it holds. -/
theorem Formed.exists_holds_of_reaches (hformed : registry.Formed) {reference : TypeReference}
    {reached : TypeHandle} (h : registry.Reaches reference reached) :
    ∃ part, registry.Holds reference part ∧ ReflTransGen registry.ByValue part reached := by
  obtain ⟨found, hpath, rfl⟩ := h
  induction hpath using ReflTransGen.head_induction_on with
  | refl => exact ⟨_, .head found, .refl⟩
  | @head outer inner hstep _ ih =>
      obtain ⟨part, hholds, hrest⟩ := ih
      cases hstep with
      | argument hargument =>
          obtain ⟨definition, index, hfound, hinner, hneeds⟩ := hargument
          have hcomplete : inner ∈ definition.completeArguments 0 outer.arguments :=
            TypeDefinition.mem_completeArguments.mpr ⟨index, hinner, by rwa [Nat.zero_add]⟩
          exact ⟨part, .argument (hformed.not_isPointer_of_mem_completeArguments hfound hcomplete)
            (List.mem_of_getElem? hinner) hholds, hrest⟩
      | field _ hfield => exact ⟨outer.handle, .head outer, .head ⟨_, hfield, hholds⟩ hrest⟩

theorem Formed.reaches_of_holds (hformed : registry.Formed) {reference : TypeReference}
    {part : TypeHandle} (hlegal : registry.Legal reference) (h : registry.Holds reference part) :
    registry.Reaches reference part := by
  induction h with
  | head reference => exact ⟨reference, .refl, rfl⟩
  | @argument outer inner part hpointer hmem _ ih =>
      obtain ⟨definition, hfound⟩ := hlegal.get?
      obtain ⟨index, hinner, hneeds⟩ := TypeDefinition.mem_completeArguments.mp
        (hformed.mem_completeArguments hlegal hfound hpointer hmem)
      rw [Nat.zero_add] at hneeds
      exact (ih (hlegal.inner hmem)).of_holdsDirectly
        (.argument ⟨definition, index, hfound, hinner, hneeds⟩)

/-- Along the fields of records, more can be reached. -/
theorem Formed.reaches_of_byValue (hformed : registry.Formed)
    (hacyclic : Acyclic registry.DerivesFrom) {reference : TypeReference} {part next : TypeHandle}
    (h : registry.Reaches reference part) (hstep : registry.ByValue part next) :
    registry.Reaches reference next := by
  obtain ⟨found, hpath, rfl⟩ := h
  obtain ⟨field, hfield, hholds⟩ := hstep
  obtain ⟨last, hrest, hlast⟩ :=
    hformed.reaches_of_holds (legal_of_mem_allFields hformed hfield) hholds
  have hrecord := hformed.isRecord_of_mem_allFields hacyclic hfield
  exact ⟨last, hpath.trans (.head (.field hrecord hfield) hrest), hlast⟩

/-- Where the search finds no open type, none can be reached from what the reference holds. -/
theorem not_mem_opened_of_findOpen? (hformed : registry.Formed)
    (hacyclic : Acyclic registry.DerivesFrom) {reference : TypeReference}
    (hlegal : registry.Legal reference)
    (hnone : registry.findOpen? opened reference = none) {part reached : TypeHandle}
    (hholds : registry.Holds reference part)
    (hpath : ReflTransGen registry.ByValue part reached) : reached ∉ opened := by
  suffices h : registry.Reaches reference reached from not_reaches_of_findOpen? hnone h
  induction hpath with
  | refl => exact hformed.reaches_of_holds hlegal hholds
  | tail _ hstep ih => exact hformed.reaches_of_byValue hacyclic ih hstep

/-- The search finds nothing if no open type can be reached from what the reference holds. -/
theorem findOpen?_eq_none (hformed : registry.Formed) {reference : TypeReference}
    (h : ∀ part reached, registry.Holds reference part →
      ReflTransGen registry.ByValue part reached → reached ∉ opened) :
    registry.findOpen? opened reference = none := by
  refine findOpen?_eq_none_iff.mpr fun reached hopen hreaches => ?_
  obtain ⟨part, hholds, hpath⟩ := hformed.exists_holds_of_reaches hreaches
  exact h part reached hholds hpath hopen

end Registry
end LiveSchema
