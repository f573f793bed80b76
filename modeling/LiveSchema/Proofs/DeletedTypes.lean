import LiveSchema.Proofs.Atomicity
import LiveSchema.Proofs.References
import LiveSchema.Proofs.Schema.Compact
import LiveSchema.Proofs.Value.AtPath

/-!
# Deleted types

In every database that mutations lead to, a type of the user can be deleted as soon as no other one
refers to it.  It takes along the roots whose type mentions it, and no other ones: a value cannot hold
it below a type that does not.  The log keeps each of these roots once.
-/

namespace LiveSchema

namespace AuditRecord

/-- The roots that the record keeps. -/
def roots? (record : AuditRecord) : Option Json :=
  PathSegment.child? record.params (.field "roots")

theorem roots?_of_params {record : AuditRecord} {params : Entries}
    (h : record.params = .object params) : record.roots? = Entries.value? params "roots" := by
  rw [roots?, h, Json.child?_object]

end AuditRecord

namespace Content

variable {content after : Content} {handle : TypeHandle} {change : Change}

/-- The roots that go with a type that no other one refers to are told by their types. -/
theorem mem_dataRoots_of_free (hwf : content.registry.WellFormed)
    (hfree : (content.usages handle).filter Usage.isBlocking = []) (store name : String) :
    (store, name) ∈ dataRoots (content.usages handle) ↔
      ∃ root, content.stores.root? store name = some root ∧ root.type.mentions handle = true := by
  simp only [mem_dataRoots, hwf.containsType_eq_mentions (unused_of_usages hwf.toFormed hfree)]

/-- What the deletion of a type leaves of the roots: those whose type does not mention it. -/
theorem root?_deleteType (hwf : content.registry.WellFormed)
    (h : content.deleteType handle = .ok change) (store name : String) :
    change.content.stores.root? store name =
      (content.stores.root? store name).filter fun root => !root.type.mentions handle := by
  obtain ⟨-, hfree, hcontent⟩ := deleteType_ok h
  have hplace := mem_dataRoots_of_free hwf hfree store name
  rw [hcontent, root?_removeRoots]
  cases hroot : content.stores.root? store name with
  | none => simp
  | some root =>
      rw [hroot] at hplace
      by_cases hmentions : root.type.mentions handle = true
      · rw [if_pos (hplace.mpr ⟨root, rfl, hmentions⟩)]
        rw [Option.filter_some, hmentions]
        rfl
      · rw [if_neg fun hgone => hmentions (by simpa using hplace.mp hgone)]
        rw [Option.filter_some, eq_false_of_ne_true hmentions]
        rfl

/-- The log keeps the roots whose type mentions the type that was deleted, each one once. -/
theorem exists_removed_of_deleteType (hwf : content.registry.WellFormed)
    (h : content.deleteType handle = .ok change) :
    ∃ removed : List (String × String × Root),
      Entries.value? change.params "roots" = some (.array (removed.map fun gone =>
        removedRootJson content.registry gone.1 gone.2.1 gone.2.2)) ∧
      (removed.map fun gone => (gone.1, gone.2.1)).Nodup ∧
      ∀ store name root, (store, name, root) ∈ removed ↔
        content.stores.root? store name = some root ∧ root.type.mentions handle = true := by
  obtain ⟨-, hfree, -⟩ := deleteType_ok h
  have hnodup := nodup_dataRoots content handle
  refine ⟨(dataRoots (content.usages handle)).filterMap fun place =>
    (content.stores.root? place.1 place.2).map fun root => (place.1, place.2, root), ?_, ?_, ?_⟩
  · rw [roots_deleteType h, removeRoots_fst _ _ hnodup, List.map_filterMap]
    simp only [Option.map_map]
    rfl
  · rw [List.map_filterMap]
    refine hnodup.filterMap fun first second place hfirst hsecond => ?_
    simp only [Option.map_map, Option.mem_def, Option.map_eq_some_iff, Function.comp_apply]
      at hfirst hsecond
    obtain ⟨-, -, rfl⟩ := hfirst
    obtain ⟨-, -, hsame⟩ := hsecond
    exact hsame.symm
  · intro store name root
    refine List.mem_filterMap.trans ⟨?_, ?_⟩
    · rintro ⟨⟨foundStore, foundName⟩, hplace, hfound⟩
      obtain ⟨held, hroot, hsame⟩ := Option.map_eq_some_iff.mp hfound
      obtain ⟨rfl, rfl, rfl⟩ : foundStore = store ∧ foundName = name ∧ held = root := by
        simpa using hsame
      obtain ⟨other, hother, hmentions⟩ := (mem_dataRoots_of_free hwf hfree _ _).mp hplace
      obtain rfl := Option.some.inj (hroot.symm.trans hother)
      exact ⟨hroot, hmentions⟩
    · rintro ⟨hroot, hmentions⟩
      exact ⟨(store, name), (mem_dataRoots_of_free hwf hfree _ _).mpr ⟨root, hroot, hmentions⟩,
        by rw [hroot, Option.map_some]⟩

/-- Nothing that is left after the deletion of a type mentions it. -/
theorem not_mentions_of_deleteType (hwf : content.registry.WellFormed)
    (h : content.deleteType handle = .ok change) {reference : TypeReference}
    (hrefers : change.content.Refers reference) : reference.mentions handle = false := by
  obtain ⟨-, hfree, hcontent⟩ := deleteType_ok h
  have hunused := unused_of_usages hwf.toFormed hfree
  have hkept : ∀ other definition, change.content.registry.get? other = some definition →
      other ≠ handle ∧ content.registry.get? other = some definition := by
    intro other definition hfound
    rw [hcontent, Registry.get?_remove] at hfound
    split at hfound
    next => exact absurd hfound (by simp)
    next hne => exact ⟨hne, hfound⟩
  cases hrefers with
  | base hfound hbase =>
      obtain ⟨hne, hbefore⟩ := hkept _ _ hfound
      exact (hunused _ _ hne hbefore).2 _ hbase
  | field hfield =>
      obtain ⟨definition, hfound, -, hmem⟩ := Registry.get?_of_mem_ownFields hfield
      obtain ⟨hne, hbefore⟩ := hkept _ _ hfound
      exact (hunused _ _ hne hbefore).1 _ hmem
  | root hroot => exact Mutation.root_unmentioned_of_deleteType h hroot

end Content

namespace Database

open Registry

variable {digest : String → String} {database : Database}

/-- In every database that can be reached, a type of the user can be deleted just if no other type of
the user mentions it in its base type or in the type of a field.  Then exactly the roots whose type
mentions it go along, and the log keeps each of them once, with its store, name, type and value.  All
other roots and types stay as they are, and no reference that is left mentions the type. -/
theorem deleted_type_of_reachable (hreachable : Reachable digest database) (time : Timestamp)
    (files : Directory) {handle : TypeHandle}
    (huser : handle ∈ database.content.registry.userTypes) :
    let registry := database.content.registry
    let applied := database.apply digest time files (.deleteType handle)
    ((∃ answer, applied.outcome = .ok answer) ↔
        ∀ other ∈ registry.userTypes, other ≠ handle → ¬ registry.RefersTo other handle) ∧
      ∀ answer, applied.outcome = .ok answer →
        (∀ store name, applied.database.content.stores.root? store name =
            (database.content.stores.root? store name).filter
              fun root => !root.type.mentions handle) ∧
          (∀ store, applied.database.content.stores.contains store =
            database.content.stores.contains store) ∧
          (∀ other, applied.database.content.registry.get? other =
            if other = handle then none else registry.get? other) ∧
          (∃ entry, ∃ removed : List (String × String × Root),
            applied.database.ledger.records = database.ledger.records ++ [entry] ∧
            entry.action = "delete_type" ∧
            entry.roots? = some (.array (removed.map fun (store, name, root) => .object
              [("store", .string store), ("root", .string name),
                ("type", .string (registry.render root.type)), ("value", root.value)])) ∧
            (removed.map fun (store, name, _) => (store, name)).Nodup ∧
            ∀ store name root, (store, name, root) ∈ removed ↔
              database.content.stores.root? store name = some root ∧
                root.type.mentions handle = true) ∧
          ∀ reference, applied.database.content.Refers reference →
            reference.mentions handle = false := by
  intro registry applied
  have hwf := hreachable.wellFormed
  constructor
  · calc (∃ answer, applied.outcome = .ok answer)
      _ ↔ ∃ change, database.content.deleteType handle = .ok change :=
        done_iff hreachable.project_eq_none time files (.deleteType handle)
      _ ↔ (database.content.usages handle).filter Usage.isBlocking = [] := by
        rw [Content.exists_deleteType_iff, and_iff_right (mem_userTypes.mp huser)]
      _ ↔ ∀ other ∈ registry.userTypes, other ≠ handle → ¬ registry.RefersTo other handle :=
        Content.blocking_eq_nil_iff
  · intro answer h
    obtain ⟨change, entry, hchange, hcontent, hrecords, haction, hparams⟩ :=
      carriedOut_and_recorded h
    have hdeleted : database.content.deleteType handle = .ok change := hchange
    have hsame : applied.database.content = change.content := hcontent
    obtain ⟨-, -, hafter⟩ := Content.deleteType_ok hdeleted
    obtain ⟨removed, hkept, hnodup, hmem⟩ := Content.exists_removed_of_deleteType hwf hdeleted
    refine ⟨fun store name => ?_, fun store => ?_, fun other => ?_,
      ⟨entry, removed, hrecords, haction, ?_, hnodup, hmem⟩, fun reference hrefers => ?_⟩
    · rw [hsame]
      exact Content.root?_deleteType hwf hdeleted store name
    · rw [hsame, hafter]
      exact Content.contains_removeRoots _ _ _ store
    · rw [hsame, hafter]
      exact get?_remove registry handle other
    · exact (AuditRecord.roots?_of_params hparams).trans hkept
    · rw [hsame] at hrefers
      exact Content.not_mentions_of_deleteType hwf hdeleted hrefers

/-! ## A struct and a list of it -/

/-- A single struct. -/
def listedStruct : Database := (inMemory.apply id ⟨0, 0⟩ NameMap.empty .addStruct).database

/-- Lists of the struct. -/
def listOfStructs : TypeReference := ⟨⟨15⟩, [.type (.plain ⟨37⟩)]⟩

/-- A root that holds an empty list of structs. -/
def listedRoot : Database :=
  (listedStruct.apply id ⟨1, 0⟩ NameMap.empty (.addRoot "main" "list" listOfStructs)).database

theorem content_listedRoot : listedRoot.content = {
    registry := listedStruct.content.registry
    stores := listedStruct.content.stores.insert "main"
      (NameMap.insert NameMap.empty "list" ⟨listOfStructs, .array []⟩) } := by
  have hlist : listedStruct.content.registry.get? ⟨15⟩ = some (.ofBuiltin .list) := rfl
  have hdefault : listedStruct.content.registry.defaultValue listOfStructs = .array [] := by
    rw [defaultValue, default?, defaultWithin?_simple hlist rfl (by decide) (by decide)]
    rfl
  have hsize : listedStruct.content.registry.defaultSize listOfStructs = 1 := by
    rw [defaultSize, sizeWithin]
    split
    next => rfl
    next hfound =>
        obtain rfl := Option.some.inj (hlist.symm.trans hfound)
        rfl
  exact content_addRoot _ _ rfl rfl rfl rfl (hsize ▸ by decide)
    hdefault

theorem reachable_listedRoot : Reachable id listedRoot :=
  (Reachable.fresh.step ⟨0, 0⟩ NameMap.empty .addStruct).step ⟨1, 0⟩ NameMap.empty
    (.addRoot "main" "list" listOfStructs)

/-- The struct can be deleted, and the list of it goes along. -/
theorem deleted_type_of_listed_struct :
    let applied := listedRoot.apply id ⟨2, 0⟩ NameMap.empty (.deleteType ⟨37⟩)
    (∃ answer, applied.outcome = .ok answer) ∧
      listedRoot.content.stores.root? "main" "list" = some ⟨listOfStructs, .array []⟩ ∧
      applied.database.content.stores.root? "main" "list" = none ∧
      applied.database.content.registry.get? ⟨37⟩ = none := by
  intro applied
  have huserTypes : listedRoot.content.registry.userTypes = [⟨37⟩] := by
    rw [content_listedRoot]
    rfl
  have hroot : listedRoot.content.stores.root? "main" "list" =
      some ⟨listOfStructs, .array []⟩ := by
    rw [content_listedRoot]
    rfl
  obtain ⟨hallowed, heffect⟩ := deleted_type_of_reachable reachable_listedRoot ⟨2, 0⟩
    NameMap.empty (by rw [huserTypes]; exact List.mem_singleton_self _)
  obtain ⟨answer, hdone⟩ := hallowed.mpr fun other hother hne => by
    rw [huserTypes] at hother
    exact absurd (List.mem_singleton.mp hother) hne
  obtain ⟨hroots, -, htypes, -⟩ := heffect answer hdone
  refine ⟨⟨answer, hdone⟩, hroot, ?_, ?_⟩
  · rw [hroots, hroot]
    decide
  · rw [htypes, if_pos rfl]

end Database
end LiveSchema
