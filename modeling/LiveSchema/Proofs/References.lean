import LiveSchema.Proofs.Mutation.Conformance
import LiveSchema.Proofs.Mutation.RootTypes

/-!
# Names, handles and references

In every database that mutations lead to, names and live types belong together one to one, also in an
index that is kept beside the definitions; every type reference that is held anywhere is legal and
leads to live types only; and over time a handle means one type at most, which keeps its kind.
-/

namespace LiveSchema

/-- The type references that a content holds: the base types, the types of fields, and the types of
roots. -/
inductive Content.Refers (content : Content) : TypeReference → Prop
  | base {handle : TypeHandle} {definition : TypeDefinition} {base : TypeReference}
      (hfound : content.registry.get? handle = some definition)
      (hbase : definition.base = some base) : Refers content base
  | field {handle : TypeHandle} {field : Field}
      (hfield : field ∈ content.registry.ownFields handle) : Refers content field.type
  | root {store name : String} {root : Root}
      (hroot : content.stores.root? store name = some root) : Refers content root.type

namespace Database

open Relation

variable {digest : String → String} {database later : Database} {handle : TypeHandle}
  {index : NameIndex}

/-- A sequence of mutations leads from one database to another. -/
def Leads (digest : String → String) : Database → Database → Prop :=
  ReflTransGen fun before after => ∃ time files mutation,
    after = (before.apply digest time files mutation).database

/-- The index of names after a mutation, which changes it only if it is carried out. -/
def reindexed (database : Database) (mutation : Mutation) (index : NameIndex) : NameIndex :=
  match mutation.carryOut database.content with
  | .error _ => index
  | .ok _ => index.follow database.content.registry.nextHandle
      (mutation.nameChange database.content.registry)

/-- The databases that can be reached, each with the index of names that was kept on the way. -/
inductive Indexed (digest : String → String) : Database → NameIndex → Prop
  | fresh : Indexed digest inMemory .initial
  | step {database : Database} {index : NameIndex} (h : Indexed digest database index)
      (time : Timestamp) (files : Directory) (mutation : Mutation) :
      Indexed digest (database.apply digest time files mutation).database
        (database.reindexed mutation index)

/-! ## One mutation after the other -/

/-- A mutation either leaves all types as they are or leads to a registry that follows. -/
theorem registry_apply_cases (digest : String → String) (database : Database) (time : Timestamp)
    (files : Directory) (mutation : Mutation) :
    (database.apply digest time files mutation).database.content.registry =
        database.content.registry ∨
      ∃ change, database.content.registry.Follows
        (database.apply digest time files mutation).database.content.registry change := by
  rcases apply_content_cases digest database time files mutation with
    ⟨_, -, hsame⟩ | ⟨change, hchange, hcontent⟩
  · exact Or.inl (by rw [hsame])
  · exact Or.inr ⟨_, hcontent ▸ Mutation.follows_carryOut hchange⟩

theorem Indexed.reachable (h : Indexed digest database index) : Reachable digest database := by
  induction h with
  | fresh => exact .fresh
  | step _ time files mutation ih => exact ih.step time files mutation

theorem Reachable.exists_indexed (h : Reachable digest database) :
    ∃ index, Indexed digest database index := by
  induction h with
  | fresh => exact ⟨.initial, .fresh⟩
  | step _ time files mutation ih =>
      obtain ⟨index, hindex⟩ := ih
      exact ⟨_, hindex.step time files mutation⟩

/-- The index stays in step with the definitions. -/
theorem Indexed.indexes (h : Indexed digest database index) :
    index.Indexes database.content.registry := by
  induction h with
  | fresh => exact NameIndex.indexes_initial
  | @step database index h time files mutation ih =>
      rw [reindexed]
      rcases apply_content_cases digest database time files mutation with
        ⟨error, herror, hsame⟩ | ⟨change, hchange, hcontent⟩
      · rw [herror, hsame]
        exact ih
      · rw [hchange, hcontent]
        exact (Mutation.follows_carryOut hchange).indexes h.reachable.wellFormed ih

theorem Reachable.legalRoots (h : Reachable digest database) :
    database.content.stores.EveryRoot fun root =>
      database.content.registry.Legal root.type := by
  refine h.content_induction
    (motive := fun content => content.stores.EveryRoot fun root => content.registry.Legal root.type)
    ?_ fun content mutation change hlegal hchange => Mutation.legalRoots_carryOut hlegal hchange
  intro store name root hroot
  exact absurd hroot (by simp [Content.root?_initial])

theorem Reachable.legal_of_refers (h : Reachable digest database) {reference : TypeReference}
    (hrefers : database.content.Refers reference) :
    database.content.registry.Legal reference := by
  cases hrefers with
  | base hfound hbase => exact (h.wellFormed.bases _ _ _ hfound hbase).2.1
  | field hfield => exact h.wellFormed.fields _ _ hfield
  | root hroot => exact h.legalRoots _ _ _ hroot

/-! ## Handles over time -/

/-- A handle that was given out keeps its kind for as long as it is live, and never gets another type
when it is not. -/
theorem Leads.variant_eq (h : Leads digest database later) {first : TypeDefinition}
    (hfirst : database.content.registry.get? handle = some first) :
    handle.index < later.content.registry.definitions.size ∧
      ∀ second, later.content.registry.get? handle = some second →
        second.variant = first.variant := by
  induction h with
  | refl =>
      refine ⟨Registry.index_lt_of_get? hfirst, fun second hsecond => ?_⟩
      obtain rfl := Option.some.inj (hfirst.symm.trans hsecond)
      rfl
  | @tail before after _ hstep ih =>
      obtain ⟨time, files, mutation, rfl⟩ := hstep
      rcases registry_apply_cases digest before time files mutation with hsame | ⟨change, hfollows⟩
      · rw [hsame]
        exact ih
      · refine ⟨Nat.lt_of_lt_of_le ih.1 hfollows.size_le, fun second hsecond => ?_⟩
        cases hbefore : before.content.registry.get? handle with
        | none => exact absurd (hfollows.get?_eq_none ih.1 hbefore) (by simp [hsecond])
        | some between =>
            have houtline := hfollows.outline?_eq hbefore hsecond
            rw [Registry.outline?, Registry.outline?, hbefore, hsecond, Option.map_some,
              Option.map_some, Option.some.injEq] at houtline
            exact (congrArg Outline.variant houtline).trans (ih.2 between hbefore)

/-- An empty place stays empty. -/
theorem Leads.get?_eq_none (h : Leads digest database later)
    (hplace : handle.index < database.content.registry.definitions.size)
    (hgone : database.content.registry.get? handle = none) :
    handle.index < later.content.registry.definitions.size ∧
      later.content.registry.get? handle = none := by
  induction h with
  | refl => exact ⟨hplace, hgone⟩
  | @tail before after _ hstep ih =>
      obtain ⟨time, files, mutation, rfl⟩ := hstep
      rcases registry_apply_cases digest before time files mutation with hsame | ⟨change, hfollows⟩
      · rw [hsame]
        exact ih
      · exact ⟨Nat.lt_of_lt_of_le ih.1 hfollows.size_le, hfollows.get?_eq_none ih.1 ih.2⟩

/-- In every database that can be reached: names and live types belong together one to one, and so says
the index that was kept on the way; every reference is legal and all types in it are live; the base of
a type is a record of its kind; a deleted type never comes back, and a live one keeps its kind. -/
theorem names_and_references_of_reachable (h : Reachable digest database) :
    (∀ name handle, database.content.registry.resolve? name = some handle ↔
        database.content.registry.isLive handle = true ∧
          database.content.registry.nameOf handle = name) ∧
      ((∃ index, Indexed digest database index) ∧ ∀ index, Indexed digest database index →
        (∀ name, index.handle? name = database.content.registry.resolve? name) ∧
          ∀ handle, index.name? handle =
            (database.content.registry.get? handle).map TypeDefinition.name) ∧
      (∀ reference, database.content.Refers reference →
        Legality.checkReference database.content.registry reference = .ok () ∧
          ∀ handle, reference.mentions handle = true →
            database.content.registry.isLive handle = true) ∧
      (∀ handle definition base, database.content.registry.get? handle = some definition →
        definition.base = some base →
          ∃ found, database.content.registry.get? base.handle = some found ∧
            found.isRecord = true ∧ found.variant = definition.variant) ∧
      (∀ handle, database.content.registry.isLive handle = true →
        ∀ gone, Leads digest database gone → gone.content.registry.isLive handle = false →
          ∀ later, Leads digest gone later → later.content.registry.isLive handle = false) ∧
      ∀ handle first, database.content.registry.get? handle = some first →
        ∀ later second, Leads digest database later →
          later.content.registry.get? handle = some second → second.variant = first.variant := by
  have hwf := h.wellFormed
  refine ⟨fun name handle => ?_, ⟨h.exists_indexed, fun index hindex => ?_⟩,
    fun reference hrefers => ?_, fun handle definition base hfound hbase => ?_,
    fun handle hlive gone hgone hdeleted later hlater => ?_,
    fun handle first hfirst later second hlater hsecond => (hlater.variant_eq hfirst).2 second hsecond⟩
  · rw [hwf.resolve?_eq_some, Registry.isLive_iff]
    constructor
    · rintro ⟨definition, hfound, hname⟩
      exact ⟨⟨definition, hfound⟩, (Registry.nameOf_of_get? hfound).trans hname⟩
    · rintro ⟨⟨definition, hfound⟩, hname⟩
      exact ⟨definition, hfound, (Registry.nameOf_of_get? hfound).symm.trans hname⟩
  · exact ⟨hindex.indexes.handle?_eq_resolve? hwf, hindex.indexes.name?_eq⟩
  · have hlegal := h.legal_of_refers hrefers
    exact ⟨Legality.checkReference_eq_ok.mpr hlegal, fun handle hmentions =>
      Registry.isLive_iff.mpr (hlegal.get?_of_mentions hmentions)⟩
  · obtain ⟨hrecord, -, found, hbaseFound, hvariant⟩ := hwf.bases handle definition base hfound hbase
    exact ⟨found, hbaseFound,
      (TypeDefinition.isRecord_eq_of_variant hvariant).trans hrecord, hvariant⟩
  · obtain ⟨first, hfirst⟩ := Registry.isLive_iff.mp hlive
    have hnone : gone.content.registry.get? handle = none := by
      simpa [Registry.isLive] using hdeleted
    have hlast := hlater.get?_eq_none (hgone.variant_eq hfirst).1 hnone
    simp [Registry.isLive, hlast.2]

/-- A struct is found under its name, and once it is deleted it never comes back. -/
theorem names_and_references_of_single_struct :
    let database := (inMemory.apply id ⟨0, 0⟩ NameMap.empty .addStruct).database
    let gone := (database.apply id ⟨1, 0⟩ NameMap.empty (.deleteType ⟨37⟩)).database
    database.content.registry.resolve? "Struct1" = some ⟨37⟩ ∧
      ∀ later, Leads id gone later → later.content.registry.isLive ⟨37⟩ = false := by
  intro database gone
  have hfresh : Reachable id inMemory := .fresh
  have hreachable : Reachable id database := hfresh.step ⟨0, 0⟩ NameMap.empty .addStruct
  have hlive : database.content.registry.isLive ⟨37⟩ = true := rfl
  have hname : database.content.registry.nameOf ⟨37⟩ = "Struct1" := rfl
  have hgone : gone.content.registry.isLive ⟨37⟩ = false := by decide
  have hlaw := names_and_references_of_reachable hreachable
  exact ⟨(hlaw.1 "Struct1" ⟨37⟩).mpr ⟨hlive, hname⟩,
    hlaw.2.2.2.2.1 ⟨37⟩ hlive gone (.single ⟨_, _, _, rfl⟩) hgone⟩

end Database
end LiveSchema
