import LiveSchema.Proofs.LegalNames
import LiveSchema.Proofs.Mutation.Backups
import LiveSchema.Proofs.StoredValues
import LiveSchema.Proofs.Value.PathTexts
import LiveSchema.Proofs.VisitedValues

/-!
# Positions in every reachable database

The log names a position by the store, the root and the text of the path into the root.  In every
database that mutations lead to, no two values inside another one have paths of the same text, so these
three texts name one position.
-/

namespace LiveSchema

/-- What the log says of a place. -/
def Place.texts (place : Place) : String × String × String :=
  (place.store, place.root, place.path.render)

/-- What the log says of a backup tells where it lay. -/
theorem Backup.texts_eq_of_toJson_eq {first second : Backup} (h : first.toJson = second.toJson) :
    first.place.texts = second.place.texts := by
  simp only [toJson, List.cons_append, Json.object.injEq, List.cons.injEq, Prod.mk.injEq,
    Json.string.injEq, true_and] at h
  obtain ⟨hstore, hroot, hpath, -⟩ := h
  rw [Place.texts, Place.texts, hstore, hroot, hpath]

namespace Content

variable {content : Content}

/-- Where the steps from every value are apart, the texts of a place name one position. -/
theorem eq_of_texts_eq
    (hapart : ∀ reference value,
      Parts.StepsApart (content.registry.childValues reference value)) {first second : Place}
    (hfirst : first ∈ content.positions) (hsecond : second ∈ content.positions)
    (htexts : first.texts = second.texts) : first = second := by
  obtain ⟨root, hroot, visit, hvisit, hpath⟩ := mem_positions.mp hfirst
  obtain ⟨other, hother, visit', hvisit', hpath'⟩ := mem_positions.mp hsecond
  obtain ⟨store, name, path⟩ := first
  obtain ⟨store', name', path'⟩ := second
  simp only [Place.texts, Prod.mk.injEq] at htexts
  obtain ⟨rfl, rfl, htext⟩ := htexts
  obtain rfl := Option.some.inj (hroot.symm.trans hother)
  have hnodup := Registry.nodup_texts_reached hapart noBarrier root.type root.value
  obtain rfl : visit = visit' := List.inj_on_of_nodup_map hnodup hvisit hvisit' (by
    rw [hpath, hpath']
    exact htext)
  simp only at hpath hpath'
  rw [← hpath, ← hpath']

end Content

namespace Database

open Registry

variable {digest : String → String} {database : Database}

theorem stepsApart_of_reachable (hreachable : Reachable digest database) (reference : TypeReference)
    (value : Json) :
    Parts.StepsApart (database.content.registry.childValues reference value) := by
  refine Registry.stepsApart_childValues (hreachable.wellFormed.names _) fun name hname => ?_
  obtain ⟨field, hfield, rfl⟩ := List.mem_map.mp hname
  rw [Registry.allFields_eq_flatMap] at hfield
  obtain ⟨owner, -, hown⟩ := List.mem_flatMap.mp hfield
  exact (hreachable.wellNamed.types.ownFields (List.mem_map_of_mem hown)).isWord

/-- In every database that can be reached, no two calls of a walk through a value have paths of the same
text, whatever the type and the value are and wherever the walk stops.  Store, root and text of the path
name one position of the database.  If a mutation keeps values in its record, then each of them is said to
lie where exactly one position of the database is after the mutation. -/
theorem distinct_path_texts_of_reachable (hreachable : Reachable digest database) :
    (∀ reference value stop,
      ((visitsUntil stop (database.content.registry.visits reference value)).1.map
        fun visit => visit.path.render).Nodup) ∧
      (∀ first ∈ database.content.positions, ∀ second ∈ database.content.positions,
        first.texts = second.texts → first = second) ∧
      ∀ time files mutation answer,
        (database.apply digest time files mutation).outcome = .ok answer →
          let after := (database.apply digest time files mutation).database
          ∃ entry, after.ledger.records = database.ledger.records ++ [entry] ∧
            ∀ kept, entry.backup? = some kept → ∃ backups : List Backup,
              kept = .array (backups.map Backup.toJson) ∧
                ∀ backup ∈ backups, ∃! place,
                  place ∈ after.content.positions ∧ place.texts = backup.place.texts := by
  refine ⟨fun reference value stop => ?_, fun first hfirst second hsecond => ?_, ?_⟩
  · have hall := Registry.nodup_texts_visits (stepsApart_of_reachable hreachable) reference value
    exact hall.sublist ((visitsUntil_isPrefix stop _).sublist.map _)
  · exact Content.eq_of_texts_eq (stepsApart_of_reachable hreachable) hfirst hsecond
  · intro time files mutation answer h after
    have hafter : Reachable digest after := hreachable.step time files mutation
    obtain ⟨change, entry, hchange, hcontent, hrecords, -, hparams⟩ := carriedOut_and_recorded h
    have hsame : after.content = change.content := hcontent
    refine ⟨entry, hrecords, fun kept hkept => ?_⟩
    rw [AuditRecord.backup?_of_params hparams] at hkept
    rcases Mutation.keeps_or_backup_eq_none hchange with hnone | hkeeps
    · rw [hnone] at hkept
      exact absurd hkept (by simp)
    · obtain ⟨backups, hbackups, hplaces⟩ := hkeeps.exists_backups (hsame ▸ hafter.wellFormed.names)
      refine ⟨backups, Option.some.inj (hkept.symm.trans hbackups), fun backup hbackup => ?_⟩
      have hposition : backup.place ∈ after.content.positions := hsame ▸ hplaces backup hbackup
      exact ⟨backup.place, ⟨hposition, rfl⟩, fun place hplace =>
        Content.eq_of_texts_eq (stepsApart_of_reachable hafter) hplace.1 hposition hplace.2⟩

theorem childValues_derivedRoot :
    derivedRoot.content.registry.childValues (.plain ⟨38⟩) (.object [("field1", .null)]) =
        [⟨.plain void, .field "field1", .null⟩] ∧
      derivedRoot.content.registry.childValues (.plain void) .null = [] := by
  rw [registry_derivedRoot]
  exact ⟨rfl, rfl⟩

/-- The root is the only object that loses the field when the field is deleted. -/
theorem lostBackup_derivedRoot :
    derivedRoot.content.lostBackup
        (fun type => derivedRoot.content.registry.isParentOf ⟨37⟩ type.handle) "field1" =
      [⟨⟨"main", "root", .root⟩, some "field1", .null⟩] := by
  obtain ⟨hobject, hvoid⟩ := childValues_derivedRoot
  have hfamily : derivedRoot.content.registry.isParentOf ⟨37⟩ ⟨38⟩ = true ∧
      derivedRoot.content.registry.isParentOf ⟨37⟩ void = false := by
    rw [registry_derivedRoot]
    decide
  have hreached : derivedRoot.content.registry.reachedIn
      (lostSteps (fun type => derivedRoot.content.registry.isParentOf ⟨37⟩ type.handle) "field1")
      (fun type => derivedRoot.content.registry.isParentOf ⟨37⟩ type.handle)
      ⟨.plain ⟨38⟩, .object [("field1", .null)]⟩ =
        [⟨.plain ⟨38⟩, .root, .object [("field1", .null)]⟩] := by
    refine reachedIn_eq_singleton hfamily.1 fun child hchild => ?_
    obtain rfl := List.mem_singleton.mp (hobject ▸ hchild)
    exact everywhere_of_childValues_eq_nil hfamily.2 hvoid
  have hstores : derivedRoot.content.stores =
      .single "root" ⟨.plain ⟨38⟩, .object [("field1", .null)]⟩ :=
    congrArg Content.stores content_derivedRoot
  rw [Content.lostBackup, Content.objectsLosing, hstores, Stores.reachedSites_single, hreached]
  rfl

/-- In a list of structs like the one with the root, every field has a text of its own.  The field is
deleted, and the null that the root held under it is kept, and said to lie at one position. -/
theorem distinct_path_texts_of_derived_root :
    let element : TypeReference := .plain ⟨38⟩
    let object : Json := .object [("field1", .null)]
    let visits := derivedRoot.content.registry.visits ⟨⟨15⟩, [.type element]⟩
      (.array [object, object])
    let applied := derivedRoot.apply id ⟨5, 0⟩ NameMap.empty (.deleteField ⟨37⟩ "field1")
    let kept : Backup := ⟨⟨"main", "root", .root⟩, some "field1", .null⟩
    visits.map (fun visit => visit.path.render) = ["[0]", "[0].field1", "[1]", "[1].field1"] ∧
      (visits.map fun visit => visit.path.render).Nodup ∧
      applied.outcome = .ok .done ∧
      ∃ entry, applied.database.ledger.records = derivedRoot.ledger.records ++ [entry] ∧
        entry.backup? = some (.array [kept.toJson]) ∧
        ∃! place, place ∈ applied.database.content.positions ∧ place.texts = kept.place.texts := by
  intro element object visits applied kept
  obtain ⟨hcalls, -, hmutations⟩ := distinct_path_texts_of_reachable reachable_derivedRoot
  obtain ⟨helement, hvoid⟩ := childValues_derivedRoot
  have hlist : derivedRoot.content.registry.childValues ⟨⟨15⟩, [.type element]⟩
      (.array [object, object]) = [⟨element, .index 0, object⟩, ⟨element, .index 1, object⟩] := by
    rw [registry_derivedRoot]
    rfl
  have hinside : ∀ path, derivedRoot.content.registry.visitsFrom path element object =
      [⟨.plain void, path.push (.field "field1"), .null⟩] := by
    intro path
    rw [visitsFrom_eq, helement, List.flatMap_singleton, visitsFrom_eq, hvoid, List.flatMap_nil]
  have hvisits : visits.map (fun visit => visit.path.render) =
      ["[0]", "[0].field1", "[1]", "[1].field1"] := by
    simp only [visits]
    rw [Registry.visits, visitsFrom_eq, hlist, List.flatMap_cons, List.flatMap_singleton, hinside,
      hinside]
    decide
  have hnodup := hcalls ⟨⟨15⟩, [.type element]⟩ (.array [object, object]) fun _ => false
  rw [visitsUntil_never] at hnodup
  have hown : ⟨"field1", .plain void, .empty, ""⟩ ∈
      derivedRoot.content.registry.ownFields ⟨37⟩ := by
    rw [registry_derivedRoot]
    decide
  obtain ⟨change, hchange, hanswer⟩ : ∃ change, Mutation.carryOut derivedRoot.content
      (.deleteField ⟨37⟩ "field1") = .ok change ∧ change.answer = .done :=
    Content.exists_deleteField hown
  have hdone : applied.outcome = .ok .done :=
    (outcome_of_carryOut reachable_derivedRoot.project_eq_none _ _ hchange).trans
      (congrArg Except.ok hanswer)
  have hdeleted : derivedRoot.content.deleteField ⟨37⟩ "field1" = .ok change := hchange
  obtain ⟨-, tally, hreports, hbackup⟩ := Content.deleteField_stores
    reachable_derivedRoot.wellFormed conforms_derivedRoot hdeleted
  rw [lostBackup_derivedRoot, List.perm_singleton] at hbackup
  obtain ⟨other, entry, hother, -, hrecords, -, hparams⟩ := carriedOut_and_recorded hdone
  obtain rfl := Except.ok.inj (hother.symm.trans hchange)
  have hentry : entry.backup? = some (.array [kept.toJson]) := by
    rw [AuditRecord.backup?_of_params hparams, hreports.backup, Tally.backupJson, hbackup]
    rfl
  obtain ⟨same, hsame, hkept⟩ := hmutations _ _ _ _ hdone
  obtain rfl : same = entry := by
    simpa using hsame.symm.trans hrecords
  obtain ⟨backups, hjson, hone⟩ := hkept _ hentry
  obtain ⟨backup, rfl, htexts⟩ := List.map_eq_singleton_iff.mp (Json.array.inj hjson).symm
  refine ⟨hvisits, hnodup, hdone, same, hrecords, hentry, ?_⟩
  rw [← Backup.texts_eq_of_toJson_eq htexts]
  exact hone backup (List.mem_singleton_self backup)

end Database
end LiveSchema
