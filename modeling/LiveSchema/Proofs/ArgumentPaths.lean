import LiveSchema.Proofs.Schema.Needs
import LiveSchema.Proofs.Schema.Unused
import Mathlib.Data.List.Nodup

/-!
# Paths of argument positions

A path of argument positions leads from a reference to another one inside it.  Sizes take up positions
as well, but no path leads on from them.  The occurrences of a type are the paths that end at it, in
the order in which dictionaries list words: a path stands before those that go on from where it ends,
and what lies inside one argument stands before what lies inside the next.

The types that a type requires are told by the positions in its base type and in the types of its own
fields.  A position counts if every argument on the way to it has to be complete.  Whether a type was
met before makes no difference: its arguments are gone through again, as they may be others this time.
-/

namespace LiveSchema
namespace TypeReference

variable {reference part : TypeReference} {handle : TypeHandle} {path : List Nat}

/-! ## Paths -/

/-- The reference that a path of argument positions leads to. -/
def inside? (reference : TypeReference) : List Nat → Option TypeReference
  | [] => some reference
  | index :: rest => (reference.typeArgument? index).bind fun inner => inner.inside? rest

theorem inside?_cons_eq_some {index : Nat} : reference.inside? (index :: path) = some part ↔
    ∃ inner, reference.arguments[index]? = some (.type inner) ∧ inner.inside? path = some part := by
  rw [inside?, Option.bind_eq_some_iff]
  simp only [typeArgument?_eq_some]

/-! ## The paths to a type -/

/-- A path into arguments goes on inside the argument at its first position. -/
theorem mem_occurrencesFrom {index : Nat} {arguments : List TemplateArgument} :
    path ∈ TemplateArgument.occurrencesFrom handle index arguments ↔
      ∃ position inner rest, arguments[position]? = some (.type inner) ∧
        rest ∈ inner.occurrences handle ∧ path = (index + position) :: rest := by
  induction arguments generalizing index with
  | nil => simp [TemplateArgument.occurrencesFrom]
  | cons argument others ih =>
      rw [← Nat.or_exists_add_one]
      simp only [List.getElem?_cons_zero, List.getElem?_cons_succ, Nat.add_zero]
      have hbehind := @ih (index + 1)
      simp only [Nat.add_assoc, Nat.add_comm 1] at hbehind
      cases argument with
      | size count => simp [TemplateArgument.occurrencesFrom, hbehind]
      | type inner => simp [TemplateArgument.occurrencesFrom, hbehind, eq_comm]

/-- The occurrences of a type are the paths that end at a reference with this type. -/
theorem mem_occurrences : path ∈ reference.occurrences handle ↔
    ∃ part, reference.inside? path = some part ∧ part.handle = handle := by
  induction reference using inner_induction generalizing path with
  | step reference ih =>
      obtain ⟨head, arguments⟩ := reference
      rw [occurrences, List.mem_append, mem_occurrencesFrom]
      cases path with
      | nil => simp [inside?]
      | cons index path =>
          have hhead : index :: path ∉ (if head = handle then [[]] else []) := by
            split <;> simp
          simp only [Nat.zero_add, List.cons.injEq]
          constructor
          · intro h
            obtain ⟨position, inner, rest, hfound, hrest, rfl, rfl⟩ := h.resolve_left hhead
            obtain ⟨part, hpart, hhandle⟩ := (ih inner (List.mem_of_getElem? hfound)).mp hrest
            exact ⟨part, inside?_cons_eq_some.mpr ⟨inner, hfound, hpart⟩, hhandle⟩
          · rintro ⟨part, hpart, hhandle⟩
            obtain ⟨inner, hfound, hinside⟩ := inside?_cons_eq_some.mp hpart
            have hrest := (ih inner (List.mem_of_getElem? hfound)).mpr ⟨part, hinside, hhandle⟩
            exact Or.inr ⟨index, inner, path, hfound, hrest, rfl, rfl⟩

/-! ## Their order -/

theorem pairwise_occurrencesFrom {index : Nat} {arguments : List TemplateArgument}
    (hinner : ∀ inner, TemplateArgument.type inner ∈ arguments →
      (inner.occurrences handle).Pairwise (· < ·)) :
    (TemplateArgument.occurrencesFrom handle index arguments).Pairwise (· < ·) := by
  induction arguments generalizing index with
  | nil => exact .nil
  | cons argument others ih =>
      have hothers := @ih (index + 1) fun inner hmem => hinner inner (List.mem_cons_of_mem _ hmem)
      cases argument with
      | size count => exact hothers
      | type inner =>
          refine List.pairwise_append.mpr ⟨?_, hothers, ?_⟩
          · refine List.pairwise_map.mpr ((hinner inner List.mem_cons_self).imp fun hless => ?_)
            exact List.cons_lt_cons_iff.mpr (Or.inr ⟨rfl, hless⟩)
          · intro before hbefore behind hbehind
            obtain ⟨rest, -, rfl⟩ := List.mem_map.mp hbefore
            obtain ⟨position, -, later, -, -, rfl⟩ := mem_occurrencesFrom.mp hbehind
            exact List.cons_lt_cons_iff.mpr (Or.inl (by omega))

theorem pairwise_occurrences (reference : TypeReference) (handle : TypeHandle) :
    (reference.occurrences handle).Pairwise (· < ·) := by
  induction reference using inner_induction with
  | step reference ih =>
      obtain ⟨head, arguments⟩ := reference
      refine List.pairwise_append.mpr ⟨?_, pairwise_occurrencesFrom ih, ?_⟩
      · split
        · exact List.pairwise_singleton _ _
        · exact .nil
      · intro before hbefore behind hbehind
        obtain ⟨position, -, rest, -, -, rfl⟩ := mem_occurrencesFrom.mp hbehind
        split at hbefore
        · rw [List.mem_singleton.mp hbefore]
          exact List.nil_lt_cons _ _
        · exact absurd hbefore List.not_mem_nil

/-- The occurrences of a type in a reference are exactly the paths of argument positions that lead to a
reference with this type.  Each of them is listed once, in the order of dictionaries, and the type is
mentioned just if there are any. -/
theorem occurrences_exact (reference : TypeReference) (handle : TypeHandle) :
    (∀ path, path ∈ reference.occurrences handle ↔
        ∃ part, reference.inside? path = some part ∧ part.handle = handle) ∧
      (reference.occurrences handle).Nodup ∧
      (reference.occurrences handle).Pairwise (· < ·) ∧
      (reference.mentions handle = true ↔ reference.occurrences handle ≠ []) := by
  have hordered := pairwise_occurrences reference handle
  refine ⟨fun path => mem_occurrences, hordered.imp fun hless => ?_, hordered, ?_⟩
  · rintro rfl
    exact List.lt_irrefl _ hless
  · rw [ne_eq, occurrences_eq_nil, Bool.not_eq_false]

/-- A type that is applied to itself, behind a size and inside another type. -/
example : (⟨⟨37⟩, [.size 4, .type (.plain ⟨37⟩), .type ⟨⟨15⟩, [.type (.plain ⟨37⟩)]⟩]⟩ :
    TypeReference).occurrences ⟨37⟩ = [[], [1], [2, 0]] := by
  decide +kernel

end TypeReference

/-! ## Required types -/

namespace Registry

open Relation

variable {registry : Registry} {reference inner : TypeReference} {part : TypeHandle}
  {index : Nat} {path : List Nat}

/-- The argument at a position is checked against a parameter that has to be complete. -/
def CompleteAt (registry : Registry) (reference : TypeReference) (index : Nat) : Prop :=
  ∃ definition parameter, registry.get? reference.handle = some definition ∧
    definition.parameterFor? index = some parameter ∧ parameter.mustBeComplete = true

/-- Every argument on the way of a path has to be complete. -/
def CompletePath (registry : Registry) (reference : TypeReference) (path : List Nat) : Prop :=
  ∀ before index after, path = before ++ index :: after →
    ∃ outer, reference.inside? before = some outer ∧ registry.CompleteAt outer index

theorem completeArgument_iff : registry.CompleteArgument reference inner ↔
    ∃ index, reference.arguments[index]? = some (.type inner) ∧
      registry.CompleteAt reference index := by
  simp only [CompleteArgument, CompleteAt, TypeDefinition.needsComplete, Option.any_eq_true]
  constructor
  · rintro ⟨definition, index, hfound, hinner, parameter, hparameter, hcomplete⟩
    exact ⟨index, hinner, definition, parameter, hfound, hparameter, hcomplete⟩
  · rintro ⟨index, hinner, definition, parameter, hfound, hparameter, hcomplete⟩
    exact ⟨definition, index, hfound, hinner, parameter, hparameter, hcomplete⟩

theorem completePath_nil (registry : Registry) (reference : TypeReference) :
    registry.CompletePath reference [] := by
  intro before index after hsplit
  exact absurd hsplit (by simp)

/-- A path goes on from its first argument. -/
theorem completePath_cons (hinner : reference.arguments[index]? = some (.type inner)) :
    registry.CompletePath reference (index :: path) ↔
      registry.CompleteAt reference index ∧ registry.CompletePath inner path := by
  constructor
  · intro h
    refine ⟨?_, fun before position after hsplit => ?_⟩
    · obtain ⟨outer, houter, hcomplete⟩ := h [] index path rfl
      exact Option.some.inj houter ▸ hcomplete
    · obtain ⟨outer, houter, hcomplete⟩ := h (index :: before) position after (by rw [hsplit]; rfl)
      obtain ⟨found, hfound, hinside⟩ := TypeReference.inside?_cons_eq_some.mp houter
      obtain rfl : inner = found := by simpa using hinner.symm.trans hfound
      exact ⟨outer, hinside, hcomplete⟩
  · rintro ⟨hfirst, hrest⟩ before position after hsplit
    cases before with
    | nil =>
        obtain ⟨rfl, -⟩ := List.cons.inj hsplit
        exact ⟨reference, rfl, hfirst⟩
    | cons first before =>
        obtain ⟨rfl, hbehind⟩ := List.cons.inj hsplit
        obtain ⟨outer, houter, hcomplete⟩ := hrest before position after hbehind
        exact ⟨outer, TypeReference.inside?_cons_eq_some.mpr ⟨inner, hinner, houter⟩, hcomplete⟩

/-- Arguments that have to be complete are followed step by step just along such a path. -/
theorem completeArguments_iff_exists_path {last : TypeReference} :
    ReflTransGen registry.CompleteArgument reference last ↔
      ∃ path, reference.inside? path = some last ∧ registry.CompletePath reference path := by
  constructor
  · intro h
    induction h using ReflTransGen.head_induction_on with
    | refl => exact ⟨[], rfl, completePath_nil registry last⟩
    | head hargument _ ih =>
        obtain ⟨index, hinner, hcomplete⟩ := completeArgument_iff.mp hargument
        obtain ⟨path, hpath, hrest⟩ := ih
        exact ⟨index :: path, TypeReference.inside?_cons_eq_some.mpr ⟨_, hinner, hpath⟩,
          (completePath_cons hinner).mpr ⟨hcomplete, hrest⟩⟩
  · rintro ⟨path, hpath, hcomplete⟩
    induction path generalizing reference with
    | nil =>
        obtain rfl := Option.some.inj hpath
        exact .refl
    | cons index path ih =>
        obtain ⟨inner, hinner, hinside⟩ := TypeReference.inside?_cons_eq_some.mp hpath
        obtain ⟨hfirst, hrest⟩ := (completePath_cons hinner).mp hcomplete
        exact .head (completeArgument_iff.mpr ⟨index, hinner, hfirst⟩) (ih hinside hrest)

/-- On every registry, a type requires, each once, exactly the types that stand in its base type or in
the type of one of its own fields at a position that only arguments lead to which have to be
complete. -/
theorem requiredDependencies_exact (registry : Registry) (handle : TypeHandle) :
    (registry.requiredDependencies handle).Nodup ∧
      ∀ part, part ∈ registry.requiredDependencies handle ↔
        ∃ reference path last, registry.Refers handle reference ∧
          reference.inside? path = some last ∧ registry.CompletePath reference path ∧
          last.handle = part := by
  refine ⟨nodup_requiredDependencies registry handle, fun part => ?_⟩
  rw [mem_requiredDependencies_iff]
  constructor
  · rintro ⟨reference, hrefers, last, hsteps, hlast⟩
    obtain ⟨path, hpath, hcomplete⟩ := completeArguments_iff_exists_path.mp hsteps
    exact ⟨reference, path, last, hrefers, hpath, hcomplete, hlast⟩
  · rintro ⟨reference, path, last, hrefers, hpath, hcomplete, hlast⟩
    exact ⟨reference, hrefers, last, completeArguments_iff_exists_path.mpr ⟨path, hpath, hcomplete⟩,
      hlast⟩

/-- The second list is gone through although lists were met before; what lies behind the pointer is not
required. -/
example :
    let structs := ((initial.declare (.newRecord .struct "A")).declare (.newRecord .struct "B")).declare
      (.newRecord .struct "C")
    let list (inner : TypeReference) : TypeReference := ⟨⟨15⟩, [.type inner]⟩
    let registry := structs.modifyFields ⟨37⟩ fun _ => [⟨"first", list (.plain ⟨5⟩), .empty, ""⟩,
      ⟨"second", list (.plain ⟨38⟩), .empty, ""⟩,
      ⟨"third", list ⟨⟨17⟩, [.type (.plain ⟨39⟩)]⟩, .empty, ""⟩]
    registry.requiredDependencies ⟨37⟩ = [⟨15⟩, ⟨5⟩, ⟨38⟩, ⟨17⟩] := by
  decide +kernel

end Registry
end LiveSchema
