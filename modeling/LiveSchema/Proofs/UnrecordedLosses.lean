import LiveSchema.Proofs.Atomicity
import LiveSchema.Proofs.Mutation.Unrecorded
import LiveSchema.Proofs.Project.Restored
import LiveSchema.Proofs.Reopening

/-!
# Losses that are not recorded

A store file may hold objects with keys that are no fields of their type.  Mutations that only seem to
rearrange objects take such entries out, or put others in their place, and the log keeps nothing of
them.
-/

namespace LiveSchema
namespace Database

variable {digest : String → String} {database : Database}

/-- In every database that was opened, and after any mutations since, the record of a mutation that
reshapes objects does not depend on what the stores hold, but for the number of objects.  The mutation
reshapes all objects of its record and of what extends it.  Of an object in the stores, an entry that
is spared keeps its value, under its new key if it is renamed; any other entry leaves no trace. -/
theorem unrecorded_losses_of_opened (hopened : Opened digest database) (time : Timestamp)
    (files : Directory) {mutation : Mutation} {record : TypeHandle}
    (hreshaped : mutation.reshaped? = some record) {answer : Answer}
    (h : (database.apply digest time files mutation).outcome = .ok answer) :
    let after := (database.apply digest time files mutation).database
    let reshape := mutation.reshape after.content.registry
    (∃ entry said count, after.ledger.records = database.ledger.records ++ [entry] ∧
        entry.params = .object (said ++ [("migrated", .ofNat count)]) ∧
        Entries.value? said "backup" = none ∧
        ∀ other : Database, other.content.registry = database.content.registry →
          ∀ otherAnswer, (other.apply digest time files mutation).outcome = .ok otherAnswer →
            ∃ otherEntry otherCount,
              (other.apply digest time files mutation).database.ledger.records =
                other.ledger.records ++ [otherEntry] ∧
              otherEntry.params = .object (said ++ [("migrated", .ofNat otherCount)])) ∧
      after.content.stores = database.content.stores.revised after.content.registry
        (after.content.registry.reviseFamily record reshape) ∧
      ∀ store name root, database.content.stores.root? store name = some root →
        ∀ entries, root.value.Contains (.object entries) →
          ∀ type key value, Entries.value? entries key = some value →
            (mutation.Spares after.content.registry type entries key →
              Entries.value? (reshape type entries) (mutation.keyAfter key) = some value) ∧
            (¬ mutation.Spares after.content.registry type entries key → ∀ other,
              Entries.value? (reshape type entries) other =
                Entries.value? (reshape type (entries.filter fun entry => entry.1 ≠ key))
                  other) := by
  intro after reshape
  obtain ⟨change, entry, hchange, hcontent, hrecords, -, hparams⟩ := carriedOut_and_recorded h
  have hsame : after.content = change.content := hcontent
  refine ⟨?_, ?_, ?_⟩
  · obtain ⟨said, count, -, hsaid, -, hbackup⟩ :=
      Mutation.params_of_reshaped hreshaped rfl hchange hchange
    refine ⟨entry, said, count, hrecords, hparams.trans (congrArg Json.object hsaid), hbackup,
      fun other hother otherAnswer hdone => ?_⟩
    obtain ⟨otherChange, otherEntry, hotherChange, -, hotherRecords, -, hotherParams⟩ :=
      carriedOut_and_recorded hdone
    obtain ⟨found, foundCount, otherCount, hfound, hotherFound, -⟩ :=
      Mutation.params_of_reshaped hreshaped hother.symm hchange hotherChange
    obtain rfl : found = said := List.append_inj_left' (hfound.symm.trans hsaid) (by simp)
    exact ⟨otherEntry, otherCount, hotherRecords,
      hotherParams.trans (congrArg Json.object hotherFound)⟩
  · show after.content.stores = _
    simp only [reshape, hsame]
    exact Mutation.stores_of_reshaped hreshaped hchange
  · intro store name root hroot entries hentries type key value hvalue
    have hnodup := hopened.hasDistinctKeys store name root hroot entries hentries
    exact ⟨fun hspares => hspares.value?_reshape hnodup hvalue,
      fun hgone => Mutation.value?_reshape_of_not_spares hgone hnodup⟩

/-! ## A key that is no field -/

/-- A struct that declares no field, and an object of it that holds a key all the same. -/
def surplusContent : Content where
  registry := Registry.initial.declare (.newRecord .struct "Struct1")
  stores := NameMap.empty.insert mainStore
    (NameMap.ofList [("r", ⟨.plain ⟨37⟩, .object [("k", .ofNat 1)]⟩)])

/-- The files that hold the content. -/
def surplusFiles : Directory :=
  (Directory.writeAll NameMap.empty (Project.documents ⟨"", "demo"⟩ surplusContent)).1

def surplusDatabase : Database := ⟨some ⟨"", "demo"⟩, surplusContent, .empty⟩

/-- The only root is the one with the object. -/
theorem root?_surplusContent {store name : String} {root : Root}
    (h : surplusContent.stores.root? store name = some root) :
    name = "r" ∧ root = ⟨.plain ⟨37⟩, .object [("k", .ofNat 1)]⟩ := by
  obtain ⟨kept, hkept, hroot⟩ := Stores.root?_eq_some_iff.mp h
  rw [surplusContent, NameMap.get?_insert] at hkept
  split at hkept
  · obtain rfl := Option.some.inj hkept
    have hmem := NameMap.get?_eq_some_iff.mp hroot
    have hentries : (NameMap.ofList
        [("r", (⟨.plain ⟨37⟩, .object [("k", .ofNat 1)]⟩ : Root))]).entries =
          [("r", ⟨.plain ⟨37⟩, .object [("k", .ofNat 1)]⟩)] := rfl
    rw [hentries, List.mem_singleton] at hmem
    exact Prod.mk.inj hmem
  · exact absurd hkept (by simp)

theorem sound_surplusContent : surplusContent.Sound := by
  have hkeys : Mutation.addStruct.HasDistinctKeys := trivial
  have hdeclared : (Content.initial.withRegistry surplusContent.registry).Sound :=
    Content.sound_initial.carryOut hkeys carryOut_declaredTypes
  refine ⟨hdeclared.types, ⟨hdeclared.names.types, ?_, fun store name root hroot => ?_⟩,
    fun store name root hroot => ?_, fun store name root hroot => ?_, rfl⟩
  · intro store hstore
    rcases NameMap.contains_insert.mp hstore with rfl | hnone
    · decide
    · exact absurd hnone (by simp [NameMap.contains])
  · obtain ⟨rfl, -⟩ := root?_surplusContent hroot
    decide
  · obtain ⟨-, rfl⟩ := root?_surplusContent hroot
    unfold Registry.Legal
    rfl
  · obtain ⟨-, rfl⟩ := root?_surplusContent hroot
    simp [Root.HasDistinctKeys, Entries.keys]

theorem holds_surplusFiles : Project.Holds ⟨"", "demo"⟩ surplusFiles surplusContent .empty := by
  have hschema : Directory.fileAt? (Project.schemaFile ⟨"", "demo"⟩) = some "demo.schema.json" :=
    rfl
  have hmain : Directory.fileAt? (Project.storeFile ⟨"", "demo"⟩ mainStore) =
      some "demo.main.store.json" := rfl
  have hstores : surplusContent.stores.entries =
      [(mainStore, NameMap.ofList [("r", ⟨.plain ⟨37⟩, .object [("k", .ofNat 1)]⟩)])] := rfl
  refine ((Project.absent_empty _).holdsLog surplusContent).writeAll (fun _ hstore => hstore)
    sound_surplusContent.slash_not_mem ?_
  simp only [Project.documents, hstores, List.map_cons, List.map_nil, Directory.writeAll,
    Directory.write, hschema, hmain]

theorem openAt_surplusFiles :
    openAt id (some ⟨"", "demo"⟩) surplusFiles = .ok surplusDatabase := by
  have hconsistent : Consistent id ⟨"", "demo"⟩ surplusDatabase surplusFiles :=
    ⟨rfl, sound_surplusContent, Ledger.chained_empty id,
      fun record hrecord => absurd hrecord List.not_mem_nil, Or.inr holds_surplusFiles⟩
  have hreads : ReadsBack ⟨"", "demo"⟩ surplusDatabase := {
    numbers := fun store name root hroot => by
      obtain ⟨-, rfl⟩ := root?_surplusContent hroot
      simp
    depths := fun store kept hkept => by
      change NameMap.get? (NameMap.insert _ _ _) _ = _ at hkept
      rw [NameMap.get?_insert] at hkept
      split at hkept
      · obtain rfl := Option.some.inj hkept
        exact Nat.le_of_ble_eq_true rfl
      · exact absurd hkept (by simp)
    params := fun record hrecord => absurd hrecord List.not_mem_nil
    times := fun record hrecord => absurd hrecord List.not_mem_nil
    records := fun record hrecord => absurd hrecord List.not_mem_nil }
  rw [openAt, openProject, hconsistent.restore? hreads holds_surplusFiles,
    hconsistent.restoreLedger hreads]
  rfl

/-- The struct gets a field.  The key that it did not declare is gone from its object, and the log does
not keep what stood there. -/
theorem unrecorded_losses_of_surplus_key :
    openAt id (some ⟨"", "demo"⟩) surplusFiles = .ok surplusDatabase ∧
      let applied := surplusDatabase.apply id ⟨0, 0⟩ surplusFiles (.addField ⟨37⟩)
      applied.outcome = .ok (.name "field1") ∧
        (∃ entry said count, applied.database.ledger.records = [entry] ∧
          entry.params = .object (said ++ [("migrated", .ofNat count)]) ∧
          Entries.value? said "backup" = none) ∧
        ∀ key, Entries.value?
            (applied.database.content.registry.conformed ⟨37⟩ [("k", .ofNat 1)]) key =
          Entries.value? (applied.database.content.registry.conformed ⟨37⟩ []) key := by
  have hdone : (surplusDatabase.apply id ⟨0, 0⟩ surplusFiles (.addField ⟨37⟩)).outcome =
      .ok (.name "field1") := by
    decide
  have hreshaped : (Mutation.addField ⟨37⟩).reshaped? = some ⟨37⟩ := rfl
  obtain ⟨⟨entry, said, count, hrecords, hparams, hbackup, -⟩, -, hentries⟩ :=
    unrecorded_losses_of_opened (.opened openAt_surplusFiles) ⟨0, 0⟩ surplusFiles hreshaped hdone
  have hroot : surplusDatabase.content.stores.root? "main" "r" =
      some ⟨.plain ⟨37⟩, .object [("k", .ofNat 1)]⟩ := rfl
  have hgone : ¬ (Mutation.addField ⟨37⟩).Spares (surplusDatabase.apply id ⟨0, 0⟩ surplusFiles
      (.addField ⟨37⟩)).database.content.registry ⟨37⟩ [("k", .ofNat 1)] "k" := by
    unfold Mutation.Spares
    decide
  refine ⟨openAt_surplusFiles, hdone, ⟨entry, said, count, hrecords, hparams, hbackup⟩, ?_⟩
  exact (hentries "main" "r" _ hroot _ (.self _) ⟨37⟩ "k" _ rfl).2 hgone

end Database
end LiveSchema
