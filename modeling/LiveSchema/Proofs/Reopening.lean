import LiveSchema.Proofs.Ledger.Appending
import LiveSchema.Proofs.LegalNames
import LiveSchema.Proofs.Mutation.Keys
import LiveSchema.Proofs.Project.Holds

/-!
# Opening a project again

A database of a project is in its files after every mutation whose files could be written.  Opening the
project again gives back the types, up to their places, the stores and the log.  Stores are found by
the names of their files: where the name of the project has steps, the files are written, and none of
them is found.
-/

namespace LiveSchema

/-! ## What mutations keep -/

/-- A content whose types, names, references and values are in order. -/
structure Content.Sound (content : Content) : Prop where
  types : content.registry.WellFormed
  names : content.WellNamed
  references : content.stores.EveryRoot fun root => content.registry.Legal root.type
  keys : content.stores.EveryRoot Root.HasDistinctKeys
  main : content.stores.contains mainStore = true

namespace Content

theorem sound_initial : Content.initial.Sound where
  types := Registry.wellFormed_initial
  names := wellNamed_initial
  references _ _ _ hroot := absurd hroot (by simp [root?_initial])
  keys _ _ _ hroot := absurd hroot (by simp [root?_initial])
  main := NameMap.contains_insert.mpr (Or.inl rfl)

variable {content : Content}

theorem Sound.carryOut {mutation : Mutation} {change : Change} (h : content.Sound)
    (hmutation : mutation.HasDistinctKeys) (hchange : mutation.carryOut content = .ok change) :
    change.content.Sound where
  types := Mutation.wellFormed_carryOut h.types hchange
  names := h.names.carryOut hchange
  references := Mutation.legalRoots_carryOut h.references hchange
  keys := (Mutation.hasDistinctKeys_carryOut h.keys hmutation hchange).stores
  main := (Mutation.rootsFrom_carryOut hchange).kept _ h.main

theorem Sound.hasWords (h : content.Sound) : content.registry.HasWords :=
  h.names.types.hasWords h.types.toFormed

theorem Sound.slash_not_mem (h : content.Sound) (store : String)
    (hstore : content.stores.contains store = true) : '/' ∉ store.toList :=
  (h.names.stores store hstore).isWord.slash_not_mem

end Content

namespace Database

variable {digest : String → String} {project : Project} {database : Database} {files : Directory}

/-- The databases of a project that any sequence of mutations leads to from nothing, and the files of
the directory, as long as all files can be written.  Refused mutations are part of the sequence. -/
inductive Kept (digest : String → String) (project : Project) : Database → Directory → Prop
  | opened {database : Database} {files : Directory} (habsent : project.Absent files)
      (h : openProject digest project files = .ok database) : Kept digest project database files
  | applied {database : Database} {files : Directory} (h : Kept digest project database files)
      (time : Timestamp) (mutation : Mutation) (hmutation : mutation.HasDistinctKeys)
      (hwritten : ∀ path, (database.apply digest time files mutation).outcome ≠
        .error (.persistence path)) :
      Kept digest project (database.apply digest time files mutation).database
        (database.apply digest time files mutation).files

/-- The database and the files of its project belong together. -/
structure Consistent (digest : String → String) (project : Project) (database : Database)
    (files : Directory) : Prop where
  place : database.project = some project
  content : database.content.Sound
  chained : database.ledger.Chained digest
  params : ∀ record ∈ database.ledger.records, record.params.HasDistinctKeys
  files : (database.content = .initial ∧ database.ledger = .empty ∧ project.Absent files) ∨
    project.Holds files database.content database.ledger

/-- Where there is neither a schema nor a log, an empty database is opened. -/
theorem openProject_of_missing (digest : String → String)
    (hschema : files.read? project.schemaFile = none)
    (hlog : files.read? project.logFile = none) :
    openProject digest project files = .ok ⟨some project, .initial, .empty⟩ := by
  have hcontent : project.restore? files = .ok none := by simp only [Project.restore?, hschema]
  have hledger : project.restoreLedger digest files = .ok .empty := by
    simp only [Project.restoreLedger, hlog]
  rw [openProject, hcontent, hledger]
  rfl

theorem openProject_of_absent (digest : String → String) (h : project.Absent files) :
    openProject digest project files = .ok ⟨some project, .initial, .empty⟩ :=
  openProject_of_missing digest h.schema h.log

/-- A change is written as a whole, or some file cannot be written. -/
theorem commit_cases (database : Database) (hproject : database.project = some project)
    (files : Directory) (entry : Entry) {record : AuditRecord}
    (hrecord : record = database.ledger.nextRecord digest entry.action entry.params entry.time) :
    (∃ path, (database.commit files record).2.2 = .error (.persistence path)) ∨
      ∃ logged, files.append project.logFile (record.render ++ "\n") = .ok logged ∧
        (logged.writeAll (project.documents database.content)).2 = .ok () ∧
        database.commit files record =
          (database.record record, (logged.writeAll (project.documents database.content)).1, .ok ()) := by
  rw [hrecord, commit_nextRecord hproject, Project.appendEntry, ← hrecord]
  cases happend : files.append project.logFile (record.render ++ "\n") with
  | error error =>
      refine Or.inl ?_
      rw [Directory.append, Directory.write] at happend
      split at happend
      · exact absurd happend (by simp)
      · exact ⟨project.logFile, happend ▸ rfl⟩
  | ok logged =>
      rcases Directory.writeAll_cases logged (project.documents database.content) with
        hok | ⟨path, herror⟩
      · exact Or.inr ⟨logged, rfl, hok, by rw [← hok]; rfl⟩
      · exact Or.inl ⟨path, herror⟩

/-- The database with another content. -/
def withContent (database : Database) (content : Content) : Database :=
  { database with content := content }

/-- A mutation that is carried out, and whose files can be written, is recorded, and all documents of
the new content are written. -/
theorem apply_of_written (hproject : database.project = some project) {time : Timestamp}
    {mutation : Mutation} {change : Change}
    (hchange : mutation.carryOut database.content = .ok change)
    (hwritten : ∀ path, (database.apply digest time files mutation).outcome ≠
      .error (.persistence path)) :
    ∃ record logged,
      record = database.ledger.nextRecord digest mutation.action (.object change.params) time ∧
      files.append project.logFile (record.render ++ "\n") = .ok logged ∧
      (logged.writeAll (project.documents change.content)).2 = .ok () ∧
      database.apply digest time files mutation =
        ⟨(database.withContent change.content).record record,
          (logged.writeAll (project.documents change.content)).1, .ok change.answer⟩ := by
  obtain ⟨record, hrecord⟩ : ∃ record, record =
      database.ledger.nextRecord digest mutation.action (.object change.params) time := ⟨_, rfl⟩
  obtain ⟨committed, hcommitted, happly⟩ : ∃ committed,
      committed = (database.withContent change.content).commit files record ∧
      database.apply digest time files mutation =
        ⟨committed.1, committed.2.1, committed.2.2.map fun _ => change.answer⟩ := by
    refine ⟨_, rfl, ?_⟩
    rw [Database.apply, hchange, hrecord]
    rfl
  rw [happly] at hwritten ⊢
  rcases commit_cases (database.withContent change.content) hproject files
    ⟨mutation.action, .object change.params, time⟩ hrecord with
    ⟨path, herror⟩ | ⟨logged, happend, hok, hcommit⟩
  · rw [← hcommitted] at herror
    exact absurd (by rw [herror]; rfl) (hwritten path)
  · refine ⟨record, logged, hrecord, happend, hok, ?_⟩
    rw [hcommitted, hcommit]
    rfl

theorem Consistent.holdsLog (h : Consistent digest project database files) :
    project.HoldsLog files database.content database.ledger := by
  rcases h.files with ⟨-, hempty, habsent⟩ | hholds
  · exact hempty ▸ habsent.holdsLog database.content
  · exact hholds.toHoldsLog

/-- A mutation whose files could be written keeps the database and its files together. -/
theorem Consistent.apply (h : Consistent digest project database files) (time : Timestamp)
    {mutation : Mutation} (hmutation : mutation.HasDistinctKeys)
    (hwritten : ∀ path, (database.apply digest time files mutation).outcome ≠
      .error (.persistence path)) :
    Consistent digest project (database.apply digest time files mutation).database
      (database.apply digest time files mutation).files := by
  cases hchange : mutation.carryOut database.content with
  | error error =>
      have hsame : database.apply digest time files mutation = ⟨database, files, .error error⟩ := by
        rw [Database.apply, hchange]
      rw [hsame]
      exact h
  | ok change =>
      have hcontent := h.content.carryOut hmutation hchange
      have hkeys := Mutation.hasDistinctKeys_carryOut h.content.keys hmutation hchange
      obtain ⟨record, logged, rfl, happend, hok, happly⟩ :=
        apply_of_written h.place hchange hwritten
      rw [happly]
      have hholds := (h.holdsLog.append happend).writeAll
        (Mutation.rootsFrom_carryOut hchange).kept hcontent.slash_not_mem hok
      refine ⟨h.place, hcontent, h.chained.push_nextRecord _ _ _, fun record hrecord => ?_,
        Or.inr hholds⟩
      rcases List.mem_append.mp hrecord with hold | hnew
      · exact h.params record hold
      · rw [List.mem_singleton.mp hnew]
        exact hkeys.params

theorem Kept.consistent (h : Kept digest project database files) :
    Consistent digest project database files := by
  induction h with
  | opened habsent h =>
      obtain rfl := Except.ok.inj ((openProject_of_absent digest habsent).symm.trans h)
      exact ⟨rfl, Content.sound_initial, Ledger.chained_empty digest,
        fun record hrecord => absurd hrecord List.not_mem_nil, Or.inl ⟨rfl, rfl, habsent⟩⟩
  | applied _ time mutation hmutation hwritten ih => exact ih.apply time hmutation hwritten

/-! ## Opening again -/

/-- What is asked of the printing and reading of numbers and times: those in the database are read as
they were printed, and nothing nests deeper than documents may. -/
structure ReadsBack (project : Project) (database : Database) : Prop where
  numbers : database.content.stores.EveryRoot fun root => root.value.NumbersReadBack
  depths : ∀ store kept, database.content.stores.get? store = some kept →
    (StoreDocument.ofStore database.content.registry project.name kept).toJson.depth ≤
      Json.documentDepth
  params : ∀ record ∈ database.ledger.records, record.params.NumbersReadBack
  times : ∀ record ∈ database.ledger.records,
    Timestamp.parse? (record.time.render "Z") = some record.time
  records : ∀ record ∈ database.ledger.records, record.toJson.depth ≤ Json.documentDepth

/-- The documents of the stores are read back. -/
theorem Consistent.readable_store (h : Consistent digest project database files)
    (hreads : ReadsBack project database) {store : String} {kept : Store}
    (hkept : database.content.stores.get? store = some kept) :
    (StoreDocument.ofStore database.content.registry project.name kept).Readable := by
  have hroot : ∀ name root, (name, root) ∈ (StoreDocument.ofStore database.content.registry
      project.name kept).roots.entries →
        ∃ held, database.content.stores.root? store name = some held ∧ held.value = root.value := by
    intro name root hmem
    obtain ⟨⟨_, held⟩, hheld, hsame⟩ := List.mem_map.mp hmem
    obtain ⟨rfl, rfl⟩ := Prod.mk.inj hsame
    exact ⟨held, Stores.root?_eq_some_iff.mpr ⟨kept, hkept, NameMap.get?_eq_some_iff.mpr hheld⟩, rfl⟩
  refine ⟨fun name root hmem => ?_, fun name root hmem => ?_, hreads.depths store kept hkept⟩
  · obtain ⟨held, hheld, hvalue⟩ := hroot name root hmem
    exact hvalue ▸ h.content.keys store name held hheld
  · obtain ⟨held, hheld, hvalue⟩ := hroot name root hmem
    exact hvalue ▸ hreads.numbers store name held hheld

/-- The log is read back from its file. -/
theorem Consistent.restoreLedger (h : Consistent digest project database files)
    (hreads : ReadsBack project database) :
    project.restoreLedger digest files = .ok database.ledger := by
  have hreadable : ∀ record ∈ database.ledger.records, record.Readable := fun record hrecord =>
    ⟨h.params record hrecord, hreads.params record hrecord, hreads.times record hrecord,
      hreads.records record hrecord⟩
  have htext := h.holdsLog.log
  rw [Project.restoreLedger]
  cases hread : files.read? project.logFile with
  | none =>
      -- a missing file is as good as an empty one
      rw [hread, Option.getD_none] at htext
      exact Ledger.parse_fileText h.chained hreadable htext
  | some text =>
      rw [hread, Option.getD_some] at htext
      exact Ledger.parse_fileText h.chained hreadable htext

/-- The content of a database is read back from its files. -/
theorem Consistent.restore? (h : Consistent digest project database files)
    (hreads : ReadsBack project database)
    (hholds : project.Holds files database.content database.ledger) :
    project.restore? files = .ok (some ⟨database.content.registry.compact,
      project.foundStores database.content database.content.registry.compactPlace⟩) := by
  have hwf := h.content.types
  have hparse : SchemaDocument.parse? (SchemaDocument.ofRegistry database.content.registry).render =
      some (SchemaDocument.ofRegistry database.content.registry) :=
    SchemaDocument.parse?_render _ rfl
  have hregistry := SchemaDocument.restore_ofRegistry hwf h.content.hasWords
  have hstores := hholds.restoreStores h.content.slash_not_mem hwf.toFormed.mirrors_compact hwf
    h.content.hasWords h.content.references fun store kept hkept => h.readable_store hreads hkept
  simp only [Project.restore?, hholds.schema, Project.readDocument, hparse]
  simp only [bind, Except.bind, hregistry, hstores]
  rfl

theorem relocates_initial :
    Registry.initial.Relocates Registry.initial Registry.initial.compactPlace := by
  have hnone : Registry.initial.userTypes = [] := by
    have htypes := Registry.userTypes_ofTypes fun definition (h : definition ∈ []) =>
      absurd h List.not_mem_nil
    rwa [Registry.ofTypes_nil] at htypes
  have hsame : Registry.initial.compact = Registry.initial := by
    rw [Registry.compact, Registry.userDefinitions, hnone]
    exact Registry.ofTypes_nil
  have hrelocates := Registry.wellFormed_initial.relocates_compact
  rwa [hsame] at hrelocates

/-- Opening the project of a database whose files could always be written succeeds, if what is in them
reads back.  The types are the same but for their places, in the same order, and so is the log.  The
stores are the same if the name of the project has no steps; otherwise they are not found, and there is
only an empty main store. -/
theorem openProject_of_kept (h : Kept digest project database files)
    (hreads : ReadsBack project database) :
    ∃ restored ρ, openProject digest project files = .ok restored ∧
      restored.project = some project ∧
      database.content.registry.Relocates restored.content.registry ρ ∧
      restored.content.stores =
        (if '/' ∈ project.name.toList then Content.initial.stores
          else database.content.stores.relocate ρ) ∧
      restored.ledger = database.ledger := by
  have hconsistent := h.consistent
  rcases hconsistent.files with ⟨hcontent, hledger, habsent⟩ | hholds
  · refine ⟨_, Registry.initial.compactPlace, openProject_of_absent digest habsent, rfl, ?_, ?_,
      hledger.symm⟩
    · rw [hcontent]
      exact relocates_initial
    · rw [hcontent]
      exact (ite_self _).symm
  · refine ⟨⟨some project, ⟨database.content.registry.compact, (project.foundStores database.content
      database.content.registry.compactPlace).withMain⟩, database.ledger⟩,
      database.content.registry.compactPlace, ?_, rfl, hconsistent.content.types.relocates_compact, ?_,
      rfl⟩
    · rw [openProject, hconsistent.restore? hreads hholds, hconsistent.restoreLedger hreads]
      rfl
    · rw [Project.foundStores]
      split
      next => rfl
      next =>
          refine if_pos ?_
          rw [NameMap.contains, Stores.relocate, NameMap.get?_mapValues, Option.isSome_map]
          exact hconsistent.content.main

/-! ## A run whose files can be written -/

/-- A mutation that is carried out succeeds if all files can be written. -/
theorem outcome_of_canHold (hproject : database.project = some project) {mutation : Mutation}
    {change : Change} (hchange : mutation.carryOut database.content = .ok change)
    (hfiles : project.CanHold change.content) (time : Timestamp) :
    (database.apply digest time files mutation).outcome = .ok change.answer := by
  obtain ⟨file, hfile⟩ := Option.isSome_iff_exists.mp hfiles.log
  rw [apply, hchange]
  simp only [commit, hproject, Directory.append, Directory.write, hfile,
    Directory.writeAll_of_isSome hfiles.documents]
  rfl

/-- A database of a project and its files, where the log reads back. -/
structure KeptWith (digest : String → String) (project : Project) (applied : Applied)
    (content : Content) : Prop where
  kept : Kept digest project applied.database applied.files
  content : applied.database.content = content
  log : ∀ record ∈ applied.database.ledger.records, record.entry.Readable

/-- A step of such a run. -/
theorem KeptWith.apply {applied : Applied} {content : Content}
    (h : KeptWith digest project applied content) {time : Timestamp} {mutation : Mutation}
    {change : Change} (hchange : mutation.carryOut content = .ok change)
    (hmutation : mutation.HasDistinctKeys)
    (hentry : Entry.Readable ⟨mutation.action, .object change.params, time⟩)
    (hfiles : project.CanHold change.content) :
    KeptWith digest project (applied.database.apply digest time applied.files mutation)
      change.content := by
  rw [← h.content] at hchange
  have hplace := h.kept.consistent.place
  have houtcome : (applied.database.apply digest time applied.files mutation).outcome =
      .ok change.answer := outcome_of_canHold hplace hchange hfiles time
  have hwritten : ∀ path, (applied.database.apply digest time applied.files mutation).outcome ≠
      .error (.persistence path) := by
    intro path hpath
    exact absurd (hpath.symm.trans houtcome) (by simp)
  refine ⟨h.kept.applied time mutation hmutation hwritten,
    apply_content_of_carryOut time applied.files hchange, fun record hrecord => ?_⟩
  obtain ⟨added, logged, rfl, -, -, happly⟩ := apply_of_written hplace hchange hwritten
  rw [happly] at hrecord
  rcases List.mem_append.mp hrecord with hold | hnew
  · exact h.log record hold
  · rw [List.mem_singleton.mp hnew]
    exact hentry

/-- A struct gets a field, and there is a root of the struct. -/
def storedDefault (digest : String → String) (project : Project) : Applied :=
  let declared := apply digest ⟨0, 0⟩ ⟨some project, .initial, .empty⟩ NameMap.empty .addStruct
  let extended := declared.database.apply digest ⟨0, 0⟩ declared.files (.addField ⟨37⟩)
  extended.database.apply digest ⟨0, 0⟩ extended.files (.addRoot "main" "root" (.plain ⟨37⟩))

/-- The types after the first step, -/
def declaredTypes : Registry :=
  Registry.initial.declare (.newRecord .struct "Struct1")

/-- and after the second. -/
def storedTypes : Registry :=
  declaredTypes.modifyFields ⟨37⟩ fun fields =>
    fields ++ [⟨"field1", .plain Registry.void, .empty, ""⟩]

theorem carryOut_declaredTypes : Mutation.carryOut .initial .addStruct = .ok
    ⟨Content.initial.withRegistry declaredTypes, [("name", .string "Struct1")], .type ⟨37⟩⟩ := by
  rw [Mutation.carryOut, Content.addType]
  simp only [Content.initial, freshTypeName_initial]
  rfl

theorem carryOut_storedTypes :
    Mutation.carryOut (Content.initial.withRegistry declaredTypes) (.addField ⟨37⟩) = .ok
      ⟨Content.initial.withRegistry storedTypes, [("record", .string "Struct1"),
        ("field", .string "field1"), ("type", .string "void"), ("migrated", .ofNat 0)],
        .name "field1"⟩ := by
  have hname : Content.freshFieldName declaredTypes ⟨37⟩ = "field1" :=
    Registry.freshFieldName_of_no_fields ⟨_, rfl, rfl⟩ rfl (by decide)
  rw [Mutation.carryOut, Content.addField]
  simp only [Content.withRegistry, hname]
  rfl

theorem exists_carryOut_storedDefault : ∃ change,
    Mutation.carryOut (Content.initial.withRegistry storedTypes)
        (.addRoot "main" "root" (.plain ⟨37⟩)) = .ok change ∧
      change.params = [("store", .string "main"), ("root", .string "root"),
        ("type", .string (storedTypes.render (.plain ⟨37⟩)))] ∧
      change.content =
        ⟨storedTypes, .single "root" ⟨.plain ⟨37⟩, .object [("field1", .null)]⟩⟩ := by
  have hstruct : storedTypes.get? ⟨37⟩ = some {
      name := "Struct1"
      body := .record ⟨.struct, [⟨"field1", .plain Registry.void, .empty, ""⟩], .empty⟩ } := rfl
  have hvoid : storedTypes.get? Registry.void = some (.ofBuiltin .void) := rfl
  obtain ⟨hdefault, hsize⟩ :
      storedTypes.defaultValue (.plain ⟨37⟩) = .object [("field1", .null)] ∧
        storedTypes.defaultSize (.plain ⟨37⟩) ≤ maxDefaultValues :=
    Registry.default_of_single_field hstruct rfl
      (show _ = [⟨"field1", .plain Registry.void, .empty, ""⟩] from rfl) hvoid rfl (by decide)
      (by decide)
  have hempty : (Content.initial.withRegistry storedTypes).stores.get? "main" =
      some NameMap.empty := rfl
  have hlegal : Legality.checkReference storedTypes (.plain ⟨37⟩) = .ok () := rfl
  exact (Content.initial.withRegistry storedTypes).exists_addRoot hempty checkIdentifier_root rfl
    hlegal hsize hdefault

theorem keptWith_storedDefault (digest : String → String)
    (hlog : (Directory.fileAt? project.logFile).isSome = true)
    (hschema : (Directory.fileAt? project.schemaFile).isSome = true)
    (hmain : (Directory.fileAt? (project.storeFile mainStore)).isSome = true) :
    KeptWith digest project (storedDefault digest project)
      ⟨storedTypes, .single "root" ⟨.plain ⟨37⟩, .object [("field1", .null)]⟩⟩ := by
  have htime : Timestamp.parse? ((⟨0, 0⟩ : Timestamp).render "Z") = some ⟨0, 0⟩ := by
    decide +kernel
  have habsent := project.absent_empty
  have hopened : KeptWith digest project ⟨⟨some project, .initial, .empty⟩, NameMap.empty, .ok .done⟩
      .initial :=
    ⟨.opened habsent (openProject_of_absent _ habsent), rfl,
      fun record hrecord => absurd hrecord List.not_mem_nil⟩
  have hdeclared := hopened.apply carryOut_declaredTypes trivial
    ⟨by simp [Entries.keys], by simp, htime, Nat.le_of_ble_eq_true rfl⟩
    (Project.canHold_of_names rfl hlog hschema hmain)
  have hextended := hdeclared.apply carryOut_storedTypes trivial
    ⟨by simp [Entries.keys], by simp, htime, Nat.le_of_ble_eq_true rfl⟩
    (Project.canHold_of_names rfl hlog hschema hmain)
  obtain ⟨change, hchange, hparams, hcontent⟩ := exists_carryOut_storedDefault
  have hentry : Entry.Readable ⟨(Mutation.addRoot "main" "root" (.plain ⟨37⟩)).action,
      .object change.params, ⟨0, 0⟩⟩ := by
    rw [hparams]
    exact ⟨by simp [Entries.keys], by simp, htime, Nat.le_of_ble_eq_true rfl⟩
  have hfiles : project.CanHold change.content := by
    rw [hcontent]
    exact Project.canHold_of_names rfl hlog hschema hmain
  have hstored := hextended.apply hchange trivial hentry hfiles
  rw [hcontent] at hstored
  exact hstored

/-- What is kept in the files of the run reads back. -/
theorem KeptWith.readsBack {applied : Applied} {registry : Registry}
    (h : KeptWith digest project applied
      ⟨registry, .single "root" ⟨.plain ⟨37⟩, .object [("field1", .null)]⟩⟩) :
    ReadsBack project applied.database where
  numbers := by
    rw [h.content, Stores.everyRoot_single_iff]
    simp
  depths store kept hkept := by
    rw [h.content, Stores.single, NameMap.get?_insert] at hkept
    split at hkept
    · obtain rfl := Option.some.inj hkept
      exact Nat.le_of_ble_eq_true rfl
    · exact absurd hkept (by simp)
  params record hrecord := (h.log record hrecord).numbers
  times record hrecord := (h.log record hrecord).time
  records record hrecord := (h.log record hrecord).record.depth

/-- Opened again, the project `demo` has the root, with its value, under the same type at its new place,
and the project `./demo` has no root any more.  Both have the types and the log. -/
theorem openProject_of_storedDefault :
    (let run := storedDefault Blake3.digestText ⟨"", "demo"⟩
      ∃ restored ρ, openProject Blake3.digestText ⟨"", "demo"⟩ run.files = .ok restored ∧
        run.database.content.registry.Relocates restored.content.registry ρ ∧
        restored.content.stores.root? "main" "root" =
          some ⟨.plain (ρ ⟨37⟩), .object [("field1", .null)]⟩ ∧
        restored.ledger = run.database.ledger) ∧
      let run := storedDefault Blake3.digestText ⟨"", "./demo"⟩
      ∃ restored ρ, openProject Blake3.digestText ⟨"", "./demo"⟩ run.files = .ok restored ∧
        run.database.content.registry.Relocates restored.content.registry ρ ∧
        restored.content.stores.root? "main" "root" = none ∧
        restored.ledger = run.database.ledger := by
  have hdemo : KeptWith Blake3.digestText ⟨"", "demo"⟩ (storedDefault Blake3.digestText ⟨"", "demo"⟩)
      ⟨storedTypes, .single "root" ⟨.plain ⟨37⟩, .object [("field1", .null)]⟩⟩ :=
    keptWith_storedDefault _ rfl rfl rfl
  have hsteps : KeptWith Blake3.digestText ⟨"", "./demo"⟩
      (storedDefault Blake3.digestText ⟨"", "./demo"⟩)
      ⟨storedTypes, .single "root" ⟨.plain ⟨37⟩, .object [("field1", .null)]⟩⟩ :=
    keptWith_storedDefault _ rfl (by decide +kernel) (by decide +kernel)
  constructor
  · obtain ⟨restored, ρ, hok, -, htypes, hstores, hledger⟩ :=
      openProject_of_kept hdemo.kept hdemo.readsBack
    refine ⟨restored, ρ, hok, htypes, ?_, hledger⟩
    rw [hstores, if_neg (by decide), hdemo.content]
    rfl
  · obtain ⟨restored, ρ, hok, -, htypes, hstores, hledger⟩ :=
      openProject_of_kept hsteps.kept hsteps.readsBack
    refine ⟨restored, ρ, hok, htypes, ?_, hledger⟩
    rw [hstores, if_pos (by decide)]
    exact Content.root?_initial _ _

end Database
end LiveSchema
