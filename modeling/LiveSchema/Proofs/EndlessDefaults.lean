import LiveSchema.Project.Restore
import LiveSchema.Proofs.Value.DefaultSize
import Mathlib

/-!
# Defaults that are never finished

A document may hold records that hold themselves.  The check of the default size refuses a type whose
default would never be finished, with one exception: the element of an array without elements is built
as well, but does not count.  So a struct passes the check whose only field is an array of the struct
itself without elements, and building its default goes on for ever.
-/

namespace LiveSchema
namespace Registry

open Relation

/-- For a type that passes the check of the default size, on any registry, all that the size counts is
built in finitely many steps; building the default ends just if it ends for the element of every array
without elements that is met on the way, and just if there is a default. -/
theorem ends_iff_of_checkDefaultSize {registry : Registry} {reference : TypeReference}
    (hsize : Legality.checkDefaultSize registry reference = .ok ()) :
    Acc (fun part whole => registry.Counts whole part) reference ∧
      (registry.Ends reference ↔
        ∀ array element, ReflTransGen registry.Counts reference array →
          registry.IsEmptyArray array → array.typeArgument? 0 = some element →
            registry.Ends element) ∧
      (registry.Ends reference ↔ ∃ value, registry.default? reference = some value) := by
  have hacc := acc_counts_of_checkDefaultSize hsize
  refine ⟨hacc, ⟨fun hends array element hpath hempty helement => ?_, ends_of_acc_counts hacc⟩,
    ends_iff_exists_default?⟩
  have harray := hends.of_reflTransGen
    (ReflTransGen.mono (fun _ _ hcounts => hcounts.1) _ _ hpath)
  exact harray.inv (.element hempty.1 helement)

/-! ## A struct with an array of itself -/

/-- A document with one struct, whose only field is an array of the struct itself, without elements. -/
def hollowDocument : SchemaDocument where
  version := schemaVersion
  variants := NameMap.ofList [("A", .struct)]
  descriptors := NameMap.ofList [("A", ⟨none, [], .empty, [⟨"f", "array<A,0>", .empty, ""⟩], []⟩)]
  order := []

/-- The type of that field. -/
def hollowArray : TypeReference := ⟨⟨16⟩, [.type (.plain ⟨37⟩), .size 0]⟩

/-- The registry that the document holds. -/
def hollow : Registry :=
  (initial.declare (.newRecord .struct "A")).modifyFields ⟨37⟩ fun _ =>
    [⟨"f", hollowArray, .empty, ""⟩]

/-- The struct of the document is legal and passes the check of the default size, but building its
default never ends. -/
theorem ends_iff_of_checkDefaultSize_hollow :
    hollowDocument.restore = .ok hollow ∧
      Legality.checkReference hollow (.plain ⟨37⟩) = .ok () ∧
      Legality.checkDefaultSize hollow (.plain ⟨37⟩) = .ok () ∧
      Acc (fun part whole => hollow.Counts whole part) (.plain ⟨37⟩) ∧
      ¬ hollow.Ends (.plain ⟨37⟩) := by
  have hsize : Legality.checkDefaultSize hollow (.plain ⟨37⟩) = .ok () := by cbv
  have hnone : hollow.default? (.plain ⟨37⟩) = none := by cbv
  obtain ⟨hcounts, -, hends⟩ := ends_iff_of_checkDefaultSize hsize
  refine ⟨by cbv, by decide +kernel, hsize, hcounts, fun h => ?_⟩
  obtain ⟨value, hvalue⟩ := hends.mp h
  exact absurd (hnone.symm.trans hvalue) (by simp)

end Registry
end LiveSchema
