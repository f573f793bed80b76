import LiveSchema.Proofs.Project.Holds

/-!
# Files of stores

Every file of a store is read by itself: what comes of it depends neither on the stores that were read
before nor on other files.  Opening a project looks at the file of its schema, at its log, and, if the
types can be restored, at the files of its stores; directories that agree on these give the same result.
-/

namespace LiveSchema

/-! ## Steps that do not depend on the state -/

section Steps

variable {α β ε : Type} {step : β → α → Except ε β} {items : List α}

/-- Steps that all succeeded were each taken from some state. -/
theorem exists_step_of_foldlM_ok {start after : β} (h : items.foldlM step start = .ok after)
    {item : α} (hmem : item ∈ items) : ∃ state next, step state item = .ok next := by
  induction items generalizing start with
  | nil => exact absurd hmem List.not_mem_nil
  | cons first rest ih =>
      rw [List.foldlM_cons, bind_eq_ok] at h
      obtain ⟨next, hnext, hrest⟩ := h
      rcases List.mem_cons.mp hmem with rfl | hmem
      · exact ⟨start, next, hnext⟩
      · exact ih hrest hmem

/-- If every item is taken from all states or fails from all states in the same way, and one of them
fails, then the error is that of an item. -/
theorem foldlM_eq_error {known : ε → Prop}
    (hsteps : ∀ item ∈ items, (∀ state, ∃ next, step state item = .ok next) ∨
      ∃ error, known error ∧ ∀ state, step state item = .error error)
    (hfails : ∃ item ∈ items, ∀ state next, step state item ≠ .ok next) (start : β) :
    ∃ error, known error ∧ items.foldlM step start = .error error := by
  induction items generalizing start with
  | nil =>
      obtain ⟨item, hmem, -⟩ := hfails
      exact absurd hmem List.not_mem_nil
  | cons first rest ih =>
      obtain ⟨hfirst, hrest⟩ := List.forall_mem_cons.mp hsteps
      rw [List.foldlM_cons]
      rcases hfirst with hok | ⟨error, hknown, herror⟩
      · obtain ⟨next, hnext⟩ := hok start
        rw [hnext]
        refine ih hrest ?_ next
        obtain ⟨item, hmem, hfail⟩ := hfails
        rcases List.mem_cons.mp hmem with rfl | hmem
        · exact absurd hnext (hfail start next)
        · exact ⟨item, hmem, hfail⟩
      · rw [herror]
        exact ⟨error, hknown, rfl⟩

end Steps

namespace Project

variable {project : Project} {registry : Registry} {files other : Directory} {stores : Stores}
  {store text : String}

/-! ## One file -/

/-- The store that the file of a store holds. -/
def readStore (project : Project) (registry : Registry) (store text : String) :
    Except Damage Store := do
  let document ← project.readDocument (project.storeFile store) text StoreDocument.parse?
  document.restore registry project.name store

theorem restoreStore_storeFile (project : Project) (registry : Registry) (stores : Stores)
    (store text : String) :
    project.restoreStore registry stores (project.storeFile store, text) =
      (project.readStore registry store text).map fun kept => stores.insert store kept := by
  have hstore : project.storeOfFile? (project.storeFile store) = some store :=
    storeOfFile?_eq_some.mpr rfl
  simp only [restoreStore, readStore, hstore]
  cases project.readDocument (project.storeFile store) text StoreDocument.parse? with
  | error damage => rfl
  | ok document => cases document.restore registry project.name store <;> rfl

/-- Other files are passed over. -/
theorem restoreStore_of_none {entry : String × String}
    (h : project.storeOfFile? entry.1 = none) (registry : Registry) (stores : Stores) :
    project.restoreStore registry stores entry = .ok stores := by
  simp only [restoreStore, h]

/-- Whether a file is read does not depend on the stores that were read before. -/
theorem restoreStore_cases (project : Project) (registry : Registry) (entry : String × String) :
    (∀ stores, ∃ next, project.restoreStore registry stores entry = .ok next) ∨
      ∃ damage, ∀ stores, project.restoreStore registry stores entry = .error damage := by
  obtain ⟨file, text⟩ := entry
  cases hstore : project.storeOfFile? file with
  | none => exact Or.inl fun stores => ⟨stores, restoreStore_of_none hstore registry stores⟩
  | some store =>
      obtain rfl := storeOfFile?_eq_some.mp hstore
      simp only [restoreStore_storeFile]
      cases project.readStore registry store text with
      | error damage => exact Or.inr ⟨damage, fun _ => rfl⟩
      | ok kept => exact Or.inl fun stores => ⟨stores.insert store kept, rfl⟩

/-! ## All files -/

/-- Where all files of stores are read, there are the stores that have a file. -/
theorem contains_of_restoreStores
    (h : files.entries.foldlM (project.restoreStore registry) NameMap.empty = .ok stores) :
    stores.contains store = files.contains (project.storeFile store) := by
  let image (store : String) : Store :=
    ((files.get? (project.storeFile store)).bind fun text =>
      (project.readStore registry store text).toOption).getD NameMap.empty
  have hread : ∀ stores store text, (project.storeFile store, text) ∈ files.entries →
      project.restoreStore registry stores (project.storeFile store, text) =
        .ok (stores.insert store (image store)) := by
    intro stores store text hmem
    obtain ⟨state, next, hok⟩ := exists_step_of_foldlM_ok h hmem
    rw [restoreStore_storeFile] at hok ⊢
    cases hkept : project.readStore registry store text with
    | error damage => simp [hkept, Except.map] at hok
    | ok kept =>
        have himage : image store = kept := by
          simp [image, NameMap.get?_eq_some_iff.mpr hmem, hkept, Except.toOption]
        rw [himage]
        rfl
  obtain ⟨result, hresult, hget⟩ := foldlM_restoreStore hread NameMap.empty
  obtain rfl := Except.ok.inj (h.symm.trans hresult)
  rw [NameMap.contains, hget, NameMap.contains]
  by_cases hfile : project.storeFile store ∈ files.entries.map Prod.fst
  · obtain ⟨text, htext⟩ := NameMap.mem_names_iff.mp hfile
    rw [if_pos hfile, htext]
    rfl
  · rw [if_neg hfile, NameMap.get?_eq_lookup files, NameMap.lookup_eq_none_of_not_mem hfile]
    rfl

/-- Only the files of stores make a difference. -/
theorem foldlM_restoreStore_congr
    (h : ∀ store, files.get? (project.storeFile store) = other.get? (project.storeFile store))
    (start : Stores) :
    files.entries.foldlM (project.restoreStore registry) start =
      other.entries.foldlM (project.restoreStore registry) start := by
  let isStore (file : String) : Bool := (project.storeOfFile? file).isSome
  have hfilter : ∀ files : Directory,
      (NameMap.filter files isStore).entries.foldlM (project.restoreStore registry) start =
        files.entries.foldlM (project.restoreStore registry) start := by
    intro files
    have hskip : ∀ stores entry, (if isStore entry.1 = true then
        project.restoreStore registry stores entry else pure stores) =
          project.restoreStore registry stores entry := by
      intro stores entry
      split
      next => rfl
      next hstore => exact (restoreStore_of_none (by simpa [isStore] using hstore) _ _).symm
    simp only [NameMap.filter, List.foldlM_filter, hskip]
  have hsame : NameMap.filter files isStore = NameMap.filter other isStore := by
    refine NameMap.ext_get? fun file => ?_
    rw [NameMap.get?_filter, NameMap.get?_filter]
    split
    next hstore =>
        obtain ⟨store, hstore⟩ := Option.isSome_iff_exists.mp hstore
        rw [storeOfFile?_eq_some.mp hstore, h]
    next => rfl
  rw [← hfilter files, hsame, hfilter]

/-! ## The content -/

/-- The types of a project can be restored. -/
def HasTypes (project : Project) (files : Directory) : Prop :=
  ∃ text document registry, files.read? project.schemaFile = some text ∧
    SchemaDocument.parse? text = some document ∧ document.restore = .ok registry

/-- Behind the types, the stores decide. -/
theorem HasTypes.restore? (h : project.HasTypes files) :
    ∃ registry, ∀ other : Directory,
      other.read? project.schemaFile = files.read? project.schemaFile →
        project.restore? other =
          (other.entries.foldlM (project.restoreStore registry) NameMap.empty).map fun stores =>
            some ⟨registry, stores⟩ := by
  obtain ⟨text, document, registry, hread, hparse, hregistry⟩ := h
  refine ⟨registry, fun other hsame => ?_⟩
  simp only [Project.restore?, hsame, hread, readDocument, hparse]
  simp only [bind, Except.bind, hregistry]
  cases other.entries.foldlM (project.restoreStore registry) NameMap.empty <;> rfl

theorem restore?_congr
    (hschema : files.read? project.schemaFile = other.read? project.schemaFile)
    (hstores : project.HasTypes files → ∀ store,
      files.get? (project.storeFile store) = other.get? (project.storeFile store)) :
    project.restore? files = project.restore? other := by
  by_cases htypes : project.HasTypes files
  · obtain ⟨registry, hrestore⟩ := htypes.restore?
    rw [hrestore files rfl, hrestore other hschema.symm, foldlM_restoreStore_congr (hstores htypes)]
  · unfold Project.restore?
    rw [← hschema]
    cases hread : files.read? project.schemaFile with
    | none => rfl
    | some text =>
        simp only [readDocument]
        cases hparse : SchemaDocument.parse? text with
        | none => rfl
        | some document =>
            cases hregistry : document.restore with
            | error damage => simp only [bind, Except.bind, hregistry]
            | ok registry =>
                exact absurd ⟨text, document, registry, hread, hparse, hregistry⟩ htypes

end Project

/-! ## Databases -/

namespace Database

variable {digest : String → String} {project : Project} {files other : Directory}
  {database : Database}

theorem openProject_congr (hcontent : project.restore? files = project.restore? other)
    (hlog : files.read? project.logFile = other.read? project.logFile) :
    openProject digest project files = openProject digest project other := by
  simp only [openProject, hcontent, Project.restoreLedger, hlog]

theorem openProject_of_damage {damage : Damage} (h : project.restore? files = .error damage) :
    openProject digest project files = .error (.corruption damage) := by
  rw [openProject, h]
  rfl

/-- What is opened was restored, or nothing was there. -/
theorem restore?_of_openProject (h : openProject digest project files = .ok database) :
    ∃ restored, project.restore? files = .ok restored ∧
      database.content.registry = (restored.getD ⟨.initial, NameMap.empty⟩).registry ∧
      database.content.stores = (restored.getD ⟨.initial, NameMap.empty⟩).stores.withMain := by
  unfold openProject at h
  cases hrestored : project.restore? files with
  | error damage => simp [hrestored, bind, Except.bind, Except.mapError] at h
  | ok restored =>
      cases hledger : project.restoreLedger digest files with
      | error damage => simp [hrestored, hledger, bind, Except.bind, Except.mapError] at h
      | ok ledger =>
          simp only [hrestored, hledger, bind, Except.bind, pure, Except.pure, Except.mapError,
            Except.ok.injEq] at h
          subst h
          exact ⟨restored, rfl, rfl, rfl⟩

/-- A database that is opened with types has the main store and those that have a file. -/
theorem contains_of_openProject (htypes : project.HasTypes files)
    (h : openProject digest project files = .ok database) {store : String} :
    database.content.stores.contains store = true ↔
      store = mainStore ∨ files.contains (project.storeFile store) = true := by
  obtain ⟨restored, hrestored, -, hstores⟩ := restore?_of_openProject h
  obtain ⟨registry, hrestore⟩ := htypes.restore?
  rw [hrestore files rfl] at hrestored
  cases hread : files.entries.foldlM (project.restoreStore registry) NameMap.empty with
  | error damage => simp [hread, Except.map] at hrestored
  | ok read =>
      simp only [hread, Except.map, Except.ok.injEq] at hrestored
      subst hrestored
      rw [hstores, Option.getD_some, ← Project.contains_of_restoreStores hread]
      unfold Stores.withMain
      split
      next hmain =>
          constructor
          · exact Or.inr
          · rintro (rfl | hcontains)
            · exact hmain
            · exact hcontains
      next => rw [NameMap.contains_insert, eq_comm]

end Database
end LiveSchema
