import LiveSchema.Proofs.Schema.Formed
import LiveSchema.Proofs.Schema.Lineage

/-!
# Registries that agree apart from one type

Most changes concern the base or the own fields of one record.  Whatever does not extend this record
keeps its effective fields.  What extends it has them behind those of the record, and the part that
lies below the record stays as it is.
-/

namespace LiveSchema
namespace Registry

open Relation

variable {registry other : Registry} {record handle : TypeHandle}

/-- Base types and own fields are the same in both registries, those of one type apart. -/
structure AgreeApart (registry other : Registry) (record : TypeHandle) : Prop where
  base : ∀ handle, handle ≠ record → other.baseOf? handle = registry.baseOf? handle
  fields : ∀ handle, handle ≠ record → other.ownFields handle = registry.ownFields handle

theorem AgreeApart.symm (h : AgreeApart registry other record) :
    AgreeApart other registry record :=
  ⟨fun handle hne => (h.base handle hne).symm, fun handle hne => (h.fields handle hne).symm⟩

theorem agreeApart_modify (registry : Registry) (record : TypeHandle)
    (f : TypeDefinition → TypeDefinition) :
    AgreeApart registry (registry.modify record f) record where
  base := by
    intro handle hne
    simp only [baseOf?, get?_modify_of_ne f hne]
  fields := by
    intro handle hne
    simp only [ownFields, record?, get?_modify_of_ne f hne]

theorem AgreeApart.derivesFrom (hagree : AgreeApart registry other record)
    (hne : handle ≠ record) {base : TypeHandle} :
    other.DerivesFrom handle base ↔ registry.DerivesFrom handle base := by
  rw [DerivesFrom, DerivesFrom, hagree.base handle hne]

theorem AgreeApart.extends_of (hagree : AgreeApart registry other record)
    (h : registry.Extends handle record) : other.Extends handle record := by
  induction h using ReflTransGen.head_induction_on with
  | refl => exact .refl
  | @head handle base hstep _ ih =>
      by_cases hsame : handle = record
      · rw [hsame]
        exact .refl
      · exact .head ((hagree.derivesFrom hsame).mpr hstep) ih

/-- The same types extend the record in both registries. -/
theorem AgreeApart.extends_iff (hagree : AgreeApart registry other record) :
    other.Extends handle record ↔ registry.Extends handle record :=
  ⟨hagree.symm.extends_of, hagree.extends_of⟩

/-! ## Lineages -/

theorem AgreeApart.baseChain (hagree : AgreeApart registry other record)
    {above : List TypeHandle} (h : registry.BaseChain handle above)
    (hout : ¬ registry.Extends handle record) : other.BaseChain handle above := by
  induction h with
  | @root handle hnone =>
      have hne : handle ≠ record := by
        rintro rfl
        exact hout .refl
      exact .root ((hagree.base handle hne).trans hnone)
  | @step handle base above hstep _ ih =>
      have hne : handle ≠ record := by
        rintro rfl
        exact hout .refl
      exact .step ((hagree.derivesFrom hne).mpr hstep) (ih fun h => hout (.head hstep h))

theorem AgreeApart.lineage_of_not_extends (hagree : AgreeApart registry other record)
    (hregistry : Acyclic registry.DerivesFrom) (hother : Acyclic other.DerivesFrom)
    (hout : ¬ registry.Extends handle record) :
    other.lineage handle = registry.lineage handle := by
  have hchain := hagree.baseChain (baseChain_ancestors hregistry handle) hout
  rw [lineage, lineage, ancestors_of_baseChain hother hchain]

/-- The lineage of what extends the record continues that of the record, and in the same way. -/
theorem AgreeApart.lineage_of_extends (hagree : AgreeApart registry other record)
    (hregistry : Acyclic registry.DerivesFrom) (hother : Acyclic other.DerivesFrom)
    (hextends : registry.Extends handle record) :
    ∃ below, (∀ owner ∈ below, owner ≠ record ∧ registry.Extends owner record) ∧
      registry.lineage handle = registry.lineage record ++ below ∧
        other.lineage handle = other.lineage record ++ below := by
  induction hextends using ReflTransGen.head_induction_on with
  | refl => exact ⟨[], by simp, by simp, by simp⟩
  | @head handle base hstep hrest ih =>
      obtain ⟨below, hbelow, hold, hnew⟩ := ih
      have hne : handle ≠ record := by
        rintro rfl
        exact hregistry handle (.head' hstep hrest)
      refine ⟨below ++ [handle], fun owner howner => ?_, ?_, ?_⟩
      · rcases List.mem_append.mp howner with howner | howner
        · exact hbelow owner howner
        · obtain rfl := List.mem_singleton.mp howner
          exact ⟨hne, .head hstep hrest⟩
      · rw [lineage_of_base hregistry hstep, hold, List.append_assoc]
      · rw [lineage_of_base hother ((hagree.derivesFrom hne).mpr hstep), hnew, List.append_assoc]

/-! ## Effective fields -/

theorem AgreeApart.allFields_of_not_extends (hagree : AgreeApart registry other record)
    (hregistry : Acyclic registry.DerivesFrom) (hother : Acyclic other.DerivesFrom)
    (hout : ¬ registry.Extends handle record) :
    other.allFields handle = registry.allFields handle := by
  rw [allFields_eq_flatMap, allFields_eq_flatMap,
    hagree.lineage_of_not_extends hregistry hother hout]
  refine List.flatMap_congr fun owner howner => hagree.fields owner ?_
  rintro rfl
  exact hout ((mem_lineage_iff hregistry _ _).mp howner)

/-- The effective fields of what extends the record are those of the record and the same further ones
in both registries. -/
theorem AgreeApart.allFields_of_extends (hagree : AgreeApart registry other record)
    (hregistry : Acyclic registry.DerivesFrom) (hother : Acyclic other.DerivesFrom)
    (hextends : registry.Extends handle record) :
    ∃ below, (∀ field ∈ below, ∃ owner, registry.Extends owner record ∧
        field ∈ registry.ownFields owner) ∧
      registry.allFields handle = registry.allFields record ++ below ∧
        other.allFields handle = other.allFields record ++ below := by
  obtain ⟨below, hbelow, hold, hnew⟩ := hagree.lineage_of_extends hregistry hother hextends
  refine ⟨below.flatMap registry.ownFields, fun field hfield => ?_, ?_, ?_⟩
  · obtain ⟨owner, howner, hmem⟩ := List.mem_flatMap.mp hfield
    exact ⟨owner, (hbelow owner howner).2, hmem⟩
  · rw [allFields_eq_flatMap, hold, List.flatMap_append, ← allFields_eq_flatMap]
  · rw [allFields_eq_flatMap, hnew, List.flatMap_append, ← allFields_eq_flatMap]
    congr 1
    exact List.flatMap_congr fun owner howner => hagree.fields owner (hbelow owner howner).1

/-- The effective fields of a record end with its own. -/
theorem exists_allFields_eq (hacyclic : Acyclic registry.DerivesFrom) (record : TypeHandle) :
    ∃ inherited, registry.allFields record = inherited ++ registry.ownFields record ∧
      ∀ other : Registry, Acyclic other.DerivesFrom → AgreeApart registry other record →
        other.baseOf? record = registry.baseOf? record →
          other.allFields record = inherited ++ other.ownFields record := by
  cases hbase : registry.baseOf? record with
  | none =>
      refine ⟨[], allFields_of_root hacyclic hbase, fun other hother _ hsame => ?_⟩
      exact allFields_of_root hother hsame
  | some base =>
      refine ⟨registry.allFields base, allFields_of_base hacyclic hbase,
        fun other hother hagree hsame => ?_⟩
      have hout : ¬ registry.Extends base record := fun h =>
        hacyclic record (.head' hbase h)
      rw [allFields_of_base hother hsame, hagree.allFields_of_not_extends hacyclic hother hout]

/-- Where the base stays, the own fields are exchanged within the effective fields. -/
theorem AgreeApart.allFields_of_base_eq (hagree : AgreeApart registry other record)
    (hregistry : Acyclic registry.DerivesFrom) (hother : Acyclic other.DerivesFrom)
    (hbase : other.baseOf? record = registry.baseOf? record)
    (hextends : registry.Extends handle record) :
    ∃ above below,
      registry.allFields handle = above ++ registry.ownFields record ++ below ∧
        other.allFields handle = above ++ other.ownFields record ++ below := by
  obtain ⟨inherited, hold, hnew⟩ := exists_allFields_eq hregistry record
  obtain ⟨below, -, hbelow, hbelow'⟩ := hagree.allFields_of_extends hregistry hother hextends
  refine ⟨inherited, below, ?_, ?_⟩
  · rw [hbelow, hold]
  · rw [hbelow', hnew other hother hagree hbase]

end Registry
end LiveSchema
