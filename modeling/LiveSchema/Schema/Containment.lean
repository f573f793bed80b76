import LiveSchema.Schema.Hierarchy
import LiveSchema.Schema.Unvisited
import LiveSchema.Value.Default

/-!
# Containment by value

A type holds by value the types of its arguments, as far as they have to be complete, and the types of
its effective fields.  `Registry.findOpen?` searches what a type reference holds by value for a type
that is not complete yet.  Each record is opened once.
-/

namespace LiveSchema
namespace Registry

/-- What is still to be searched. -/
inductive Pending where
  /-- A type reference, with its arguments. -/
  | reference (reference : TypeReference)
  /-- The fields of a record. -/
  | fields (record : TypeHandle)

namespace Pending

/-- A bound on the search inside arguments, for its termination. -/
noncomputable def weight : Pending → Nat
  | reference r => 2 * sizeOf r
  | fields _ => 1

end Pending

/-- The weight of all that is still to be searched. -/
noncomputable def totalWeight : List Pending → Nat
  | [] => 0
  | first :: rest => first.weight + totalWeight rest

theorem totalWeight_append (first second : List Pending) :
    totalWeight (first ++ second) = totalWeight first + totalWeight second := by
  induction first with
  | nil => simp [totalWeight]
  | cons pending rest ih =>
    simp only [List.cons_append, totalWeight, ih]
    omega

theorem totalWeight_lt_cons (first : Pending) (rest : List Pending) :
    totalWeight rest < totalWeight (first :: rest) := by
  simp only [totalWeight]
  cases first with
  | reference r =>
    cases r
    simp only [Pending.weight, TypeReference.mk.sizeOf_spec]
    omega
  | fields _ =>
    simp only [Pending.weight]
    omega

/-- What a type reference leads to: its complete arguments, then the fields of its record. -/
def insideReference (definition : TypeDefinition) (reference : TypeReference) : List Pending :=
  (definition.completeArguments 0 reference.arguments).map .reference ++
    if definition.isRecord then [.fields reference.handle] else []

theorem weight_completeArguments (definition : TypeDefinition) (index : Nat)
    (arguments : List TemplateArgument) :
    totalWeight ((definition.completeArguments index arguments).map .reference) + 2 ≤
      2 * sizeOf arguments := by
  induction arguments generalizing index with
  | nil => simp [TypeDefinition.completeArguments, totalWeight]
  | cons argument rest ih =>
    have tail := ih (index + 1)
    cases argument with
    | size count =>
      simp only [TypeDefinition.completeArguments, List.cons.sizeOf_spec]
      omega
    | type inner =>
      simp only [TypeDefinition.completeArguments, List.cons.sizeOf_spec,
        TemplateArgument.type.sizeOf_spec]
      split
      · simp only [List.map_cons, totalWeight, Pending.weight] at tail ⊢
        omega
      · omega

theorem weight_insideReference (definition : TypeDefinition) (reference : TypeReference)
    (rest : List Pending) :
    totalWeight (insideReference definition reference ++ rest) <
      totalWeight (.reference reference :: rest) := by
  have inside := weight_completeArguments definition 0 reference.arguments
  obtain ⟨handle, arguments⟩ := reference
  simp only [insideReference, totalWeight_append, totalWeight, Pending.weight,
    TypeReference.mk.sizeOf_spec] at inside ⊢
  split
  · simp only [totalWeight, Pending.weight]
    omega
  · simp only [totalWeight]
    omega

/-- Searches what is pending, in order, for a type in `opened`.  The records in `closed` are not
searched again. -/
def findOpenFrom? (registry : Registry) (opened closed : List TypeHandle) (stack : List Pending) :
    Option TypeHandle :=
  match stack with
  | [] => none
  | .reference reference :: rest =>
    if reference.handle ∈ opened then some reference.handle
    else
      match registry.get? reference.handle with
      | none => registry.findOpenFrom? opened closed rest
      | some definition =>
        have := weight_insideReference definition reference rest
        registry.findOpenFrom? opened closed (insideReference definition reference ++ rest)
  | .fields record :: rest =>
    if fresh : record ∈ registry.handles ∧ record ∉ closed then
      have := unvisited_cons_lt fresh.1 fresh.2
      registry.findOpenFrom? opened (record :: closed)
        ((registry.allFields record).map (fun field => .reference field.type) ++ rest)
    else registry.findOpenFrom? opened closed rest
termination_by (unvisited registry.handles closed, totalWeight stack)
decreasing_by
  · exact .right _ (totalWeight_lt_cons _ _)
  · exact .right _ this
  · exact .left _ _ this
  · exact .right _ (totalWeight_lt_cons _ _)

/-- The first type in `opened` that a type reference holds by value. -/
def findOpen? (registry : Registry) (opened : List TypeHandle) (reference : TypeReference) :
    Option TypeHandle :=
  registry.findOpenFrom? opened [] [.reference reference]

end Registry
end LiveSchema
