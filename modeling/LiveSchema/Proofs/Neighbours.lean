import LiveSchema.Proofs.Project.StoreFiles
import LiveSchema.Proofs.Reopening

/-!
# Projects in one directory

The files of several projects may lie in one directory.  A project finds its schema and its log by
their paths, and these lead to no file of another project.  Its stores it finds by the names of files:
whatever starts with its own name and a point and ends like a store file is taken for one.  So the
stores of a project whose name goes on from this with a point are taken for its stores as well, and
opening fails because they belong to another schema.  Otherwise projects do not disturb each other.
-/

namespace LiveSchema
namespace Project

open Directory

variable {project p q : Project} {files : Directory} {file ending store named : String}

/-! ## Names of files -/

/-- What the names of the files of a project start with: the last step of its name. -/
def stem (project : Project) : String :=
  String.ofList ((project.name.toList.splitOn '/').getLastD [])

/-- The paths of the files of a project do not leave the directory. -/
def Stays (project : Project) : Prop :=
  project.name.toList.head? ≠ some '/' ∧
    ((project.name.toList.splitOn '/').dropLast.all fun step => step = [] || step = ['.']) = true

theorem stem_of_slash_not_mem (h : '/' ∉ project.name.toList) : project.stem = project.name := by
  rw [stem, List.splitOn_eq_singleton h]
  exact String.ofList_toList

/-- Where the path of a file leads is told by the stem. -/
theorem fileAt?_append (hending : '/' ∉ ending.toList) :
    fileAt? (project.name ++ ending) = some file ↔
      project.Stays ∧ admits (project.stem ++ ending) = true ∧ file = project.stem ++ ending := by
  obtain ⟨before, base, hsplit⟩ := Text.exists_splitOn_append '/' project.name.toList
  have hname := hsplit [] List.not_mem_nil
  rw [List.append_nil, List.append_nil] at hname
  have hfile : String.ofList (base ++ ending.toList) = project.stem ++ ending := by
    rw [stem, hname, List.getLastD_concat, String.ofList_append, String.ofList_toList]
  have hhead : (project.name.toList ++ ending.toList).head? = some '/' ↔
      project.name.toList.head? = some '/' := by
    cases project.name.toList with
    | cons => rfl
    | nil => exact iff_of_false (fun h => hending (List.mem_of_head? h)) (by simp)
  rw [fileAt?, Stays, String.toList_append, hsplit _ hending, hname, List.getLastD_concat,
    List.dropLast_concat, List.dropLast_concat, hfile, Option.ite_none_right_eq_some, ne_eq, hhead]
  simp only [Option.some.injEq, eq_comm (a := file), and_assoc, ne_eq]

/-- A path to a file of a store leads to the stem with the same ending. -/
theorem fileAt?_storeFile (hstore : Legality.IsIdentifier store)
    (h : fileAt? (project.storeFile store) = some file) :
    file = project.stem ++ storeTail store := by
  rw [storeFile_eq] at h
  exact ((fileAt?_append (slash_not_mem_storeTail hstore.isWord.slash_not_mem)).mp h).2.2

/-! ## The files of a project -/

/-- A file is the one of the schema of a project, of its log, or of a store with a legal name. -/
def Owns (project : Project) (file : String) : Prop :=
  fileAt? project.schemaFile = some file ∨ fileAt? project.logFile = some file ∨
    ∃ store, Legality.IsIdentifier store ∧ fileAt? (project.storeFile store) = some file

/-- The name of a file tells which store it could be of. -/
theorem owns_iff : project.Owns file ↔
    fileAt? project.schemaFile = some file ∨ fileAt? project.logFile = some file ∨
      ∃ store ∈ (Project.mk project.directory project.stem).storeOfFile? file,
        Legality.IsIdentifier store ∧ fileAt? (project.storeFile store) = some file := by
  refine or_congr_right (or_congr_right (exists_congr fun store => ?_))
  rw [Option.mem_def, storeOfFile?_eq_some, iff_and_self]
  rintro ⟨hstore, hfile⟩
  rw [storeFile_eq ⟨project.directory, project.stem⟩ store]
  exact fileAt?_storeFile hstore hfile

instance (project : Project) (file : String) : Decidable (project.Owns file) :=
  decidable_of_iff' _ owns_iff

/-- A directory without the files of a project. -/
def without (project : Project) (files : Directory) : Directory :=
  NameMap.filter files fun file => !decide (project.Owns file)

theorem get?_without (project : Project) (files : Directory) (file : String) :
    (project.without files).get? file =
      if project.Owns file then none else files.get? file := by
  rw [without, NameMap.get?_filter]
  by_cases h : project.Owns file <;> simp [h]

theorem read?_without {path : String} (h : ∀ file, fileAt? path = some file → ¬ project.Owns file) :
    (project.without files).read? path = files.read? path := by
  rw [read?, read?]
  cases hfile : fileAt? path with
  | none => rfl
  | some file => exact (get?_without project files file).trans (if_neg (h file hfile))

/-- There is a file of a store of the project. -/
def HasStore (project : Project) (files : Directory) : Prop :=
  ∃ store text, Legality.IsIdentifier store ∧ files.read? (project.storeFile store) = some text

/-- The files of the stores of a project hold documents that name the project. -/
def Labelled (project : Project) (files : Directory) : Prop :=
  ∀ store text, Legality.IsIdentifier store → files.read? (project.storeFile store) = some text →
    ∃ document, StoreDocument.parse? text = some document ∧ document.format = storeFormat ∧
      document.schema = project.name

/-- The stem of the second project goes on from the name of the first with a point. -/
def Covers (p q : Project) : Prop :=
  ∃ rest, q.stem = p.name ++ "." ++ rest

/-! ## Files of two projects -/

/-- Schemas and logs of two projects lie in one file only if the stems are the same. -/
theorem Owns.stem_eq (howns : q.Owns file)
    (hending : ending = ".schema.json" ∨ ending = ".changelog.jsonl")
    (h : fileAt? (p.name ++ ending) = some file) : p.stem = q.stem := by
  have hslash : '/' ∉ ending.toList := by
    rcases hending with rfl | rfl
    · exact slash_not_mem_schema
    · exact slash_not_mem_log
  have hfile := ((fileAt?_append hslash).mp h).2.2
  have hkinds : ∀ first second : String,
      first ++ ".schema.json" ≠ second ++ ".changelog.jsonl" := by
    intro first second hsame
    have hlast := congrArg (fun text : String => text.toList.getLast?) hsame
    simp [List.getLast?_append] at hlast
  rcases howns with hschema | hlog | ⟨store, hstore, hstored⟩
  · have hother := hfile.symm.trans ((fileAt?_append slash_not_mem_schema).mp hschema).2.2
    rcases hending with rfl | rfl
    · exact String.append_left_inj _ |>.mp hother
    · exact absurd hother.symm (hkinds _ _)
  · have hother := hfile.symm.trans ((fileAt?_append slash_not_mem_log).mp hlog).2.2
    rcases hending with rfl | rfl
    · exact absurd hother (hkinds _ _)
    · exact String.append_left_inj _ |>.mp hother
  · have hother := hfile.symm.trans (fileAt?_storeFile hstore hstored)
    rcases hending with rfl | rfl
    · exact absurd hother (append_schema_ne _ _ _)
    · exact absurd hother (append_log_ne _ _ _)

/-- A text is cut at a mark and at its last mark: these are the same, or the first comes before. -/
theorem eq_or_exists_of_append_cons {mark : Char} {first second front back : List Char}
    (hback : mark ∉ back) (h : first ++ mark :: front = second ++ mark :: back) :
    first = second ∨ ∃ rest, second = first ++ mark :: rest ∧ front = rest ++ mark :: back := by
  rcases List.append_eq_append_iff.mp h with ⟨between, rfl, hfront⟩ | ⟨between, rfl, hbehind⟩
  · cases between with
    | nil => exact Or.inl (List.append_nil _).symm
    | cons c rest =>
        obtain ⟨rfl, rfl⟩ := List.cons.inj hfront
        exact Or.inr ⟨rest, rfl, rfl⟩
  · cases between with
    | nil => exact Or.inl (List.append_nil _)
    | cons c rest =>
        obtain ⟨rfl, rfl⟩ := List.cons.inj hbehind
        exact absurd (List.mem_append_right _ List.mem_cons_self) hback

/-- A file of another project is taken for a store only if it is of a store there, and the stem of that
project goes on from the name of this one with a point. -/
theorem Owns.of_storeFile (howns : q.Owns (p.storeFile named)) :
    p.stem = q.stem ∨ ∃ rest store, q.stem = p.name ++ "." ++ rest ∧ Legality.IsIdentifier store ∧
      named = rest ++ "." ++ store ∧ fileAt? (q.storeFile store) = some (p.storeFile named) := by
  rcases howns with hschema | hlog | ⟨store, hstore, hstored⟩
  · have hfile := ((fileAt?_append slash_not_mem_schema).mp hschema).2.2
    rw [storeFile_eq] at hfile
    exact absurd hfile.symm (append_schema_ne _ _ _)
  · have hfile := ((fileAt?_append slash_not_mem_log).mp hlog).2.2
    rw [storeFile_eq] at hfile
    exact absurd hfile.symm (append_log_ne _ _ _)
  · have hfile := fileAt?_storeFile hstore hstored
    have hslash := slash_not_mem_name (not_mem_of_fileAt? hstored)
    have hpoint : '.' ∉ store.toList := hstore.isWord.not_mem (by decide) (by decide)
    have hlists : p.name.toList ++ '.' :: named.toList = q.stem.toList ++ '.' :: store.toList := by
      have hwhole := congrArg String.toList ((storeFile_eq p named).symm.trans hfile)
      simp only [storeTail, String.toList_append, ← List.append_assoc] at hwhole
      simpa using List.append_cancel_right hwhole
    rcases eq_or_exists_of_append_cons hpoint hlists with hsame | ⟨rest, hstem, hnamed⟩
    · exact Or.inl ((stem_of_slash_not_mem hslash).trans (String.toList_inj.mp hsame))
    · refine Or.inr ⟨String.ofList rest, store, ?_, hstore, ?_, hstored⟩
      · exact String.toList_inj.mp (by simpa using hstem)
      · exact String.toList_inj.mp (by simpa using hnamed)

section Covered

variable {rest : String} (hcovers : q.stem = p.name ++ "." ++ rest)
  (hstore : Legality.IsIdentifier store) (hfile : fileAt? (q.storeFile store) = some file)
include hcovers hstore hfile

/-- The stores of a project whose files go on from the name of another are taken for its stores. -/
theorem eq_storeFile_of_stem_eq : file = p.storeFile (rest ++ "." ++ store) := by
  rw [fileAt?_storeFile hstore hfile, hcovers, storeFile_eq]
  simp only [storeTail, String.append_assoc]

theorem stem_ne_of_stem_eq : p.stem ≠ q.stem := by
  have hplain := not_mem_of_fileAt? hfile
  rw [eq_storeFile_of_stem_eq hcovers hstore hfile] at hplain
  rw [stem_of_slash_not_mem (slash_not_mem_name hplain), hcovers]
  intro hsame
  have hlength := congrArg (fun text : String => text.toList.length) hsame
  simp at hlength

end Covered

/-- A store of a covered project has a file that is taken for a store. -/
theorem Covers.exists_storeFile (hcovers : p.Covers q) (hstore : q.HasStore files) :
    p.stem ≠ q.stem ∧ ∃ named text, q.Owns (p.storeFile named) ∧
      files.get? (p.storeFile named) = some text := by
  obtain ⟨rest, hrest⟩ := hcovers
  obtain ⟨store, text, hlegal, hread⟩ := hstore
  obtain ⟨file, hfile, htext⟩ := Option.bind_eq_some_iff.mp hread
  obtain rfl := eq_storeFile_of_stem_eq hrest hlegal hfile
  exact ⟨stem_ne_of_stem_eq hrest hlegal hfile, _, text, Or.inr (Or.inr ⟨store, hlegal, hfile⟩), htext⟩

theorem read?_schemaFile_without (hstem : p.stem ≠ q.stem) :
    (q.without files).read? p.schemaFile = files.read? p.schemaFile :=
  read?_without fun _ hfile howns => hstem (howns.stem_eq (Or.inl rfl) hfile)

theorem read?_logFile_without (hstem : p.stem ≠ q.stem) :
    (q.without files).read? p.logFile = files.read? p.logFile :=
  read?_without fun _ hfile howns => hstem (howns.stem_eq (Or.inr rfl) hfile)

/-! ## Opening beside another project -/

/-- A store of the second project was taken for one of the first. -/
def Mistaken (p q : Project) (damage : Damage) : Prop :=
  ∃ rest store, q.stem = p.name ++ "." ++ rest ∧ Legality.IsIdentifier store ∧
    damage = .storeSchema (rest ++ "." ++ store) q.name p.name

/-- A store document that names another project is refused. -/
theorem Labelled.restoreStore {text : String} (h : q.Labelled files) (hstem : p.stem ≠ q.stem)
    (hmem : (p.storeFile named, text) ∈ files.entries) (howns : q.Owns (p.storeFile named))
    (registry : Registry) : ∃ damage, p.Mistaken q damage ∧
      ∀ stores, p.restoreStore registry stores (p.storeFile named, text) = .error damage := by
  obtain ⟨rest, store, hcovers, hstore, rfl, hfile⟩ := howns.of_storeFile.resolve_left hstem
  have hother : q.name ≠ p.name := by
    intro hsame
    exact hstem (by rw [stem, stem, hsame])
  have hread : files.read? (q.storeFile store) = some text := by
    rw [read?, hfile]
    exact NameMap.get?_eq_some_iff.mpr hmem
  obtain ⟨document, hparse, hformat, hschema⟩ := h store text hstore hread
  refine ⟨_, ⟨rest, store, hcovers, hstore, rfl⟩, fun stores => ?_⟩
  rw [restoreStore_storeFile, readStore, readDocument, hparse]
  simp [StoreDocument.restore, hformat, hschema, hother, bind, Except.bind, throw, throwThe,
    MonadExceptOf.throw, Except.map]

theorem mem_entries_without {entry : String × String} :
    entry ∈ (project.without files).entries ↔
      entry ∈ files.entries ∧ ¬ project.Owns entry.1 := by
  simp [without, NameMap.filter]

/-- A file that is not read is of the other project, if all files are read without it. -/
theorem Labelled.restoreStore_cases {entry : String × String} (h : q.Labelled files)
    (hstem : p.stem ≠ q.stem) (registry : Registry) (hmem : entry ∈ files.entries) :
    (∀ stores, ∃ next, p.restoreStore registry stores entry = .ok next) ∨
      ∃ damage, (∀ stores, (q.without files).entries.foldlM (p.restoreStore registry)
          NameMap.empty = .ok stores → p.Mistaken q damage) ∧
        ∀ stores, p.restoreStore registry stores entry = .error damage := by
  rcases Project.restoreStore_cases p registry entry with hok | ⟨damage, hdamage⟩
  · exact Or.inl hok
  · refine Or.inr ⟨damage, fun stores halone => ?_, hdamage⟩
    by_cases howns : q.Owns entry.1
    · obtain ⟨file, text⟩ := entry
      cases hstored : p.storeOfFile? file with
      | none =>
          have hskip : p.restoreStore registry stores (file, text) = .ok stores :=
            restoreStore_of_none hstored registry stores
          exact absurd (hskip.symm.trans (hdamage stores)) (by simp)
      | some named =>
          obtain rfl := storeOfFile?_eq_some.mp hstored
          obtain ⟨found, hmistaken, hfound⟩ := h.restoreStore hstem hmem howns registry
          exact Except.error.inj ((hfound stores).symm.trans (hdamage stores)) ▸ hmistaken
    · obtain ⟨before, after, hok⟩ :=
        exists_step_of_foldlM_ok halone (mem_entries_without.mpr ⟨hmem, howns⟩)
      exact absurd (hok.symm.trans (hdamage before)) (by simp)

/-- If a store of the second project is taken for one of the first, the first cannot be restored.  It is
the other project that is to blame if the first could be restored without it. -/
theorem Labelled.restore? (hlabelled : q.Labelled files) (hcovers : p.Covers q)
    (htypes : p.HasTypes files) (hstore : q.HasStore files) :
    ∃ damage, p.restore? files = .error damage ∧
      ∀ restored, p.restore? (q.without files) = .ok restored → p.Mistaken q damage := by
  obtain ⟨hstem, mistaken, text, howned, htext⟩ := hcovers.exists_storeFile hstore
  obtain ⟨registry, hrestore⟩ := htypes.restore?
  rw [hrestore files rfl, hrestore (q.without files) (read?_schemaFile_without hstem)]
  have hmem := NameMap.get?_eq_some_iff.mp htext
  obtain ⟨refused, -, hrefused⟩ := hlabelled.restoreStore hstem hmem howned registry
  obtain ⟨damage, hblame, hfold⟩ := foldlM_eq_error
    (fun entry => hlabelled.restoreStore_cases hstem registry)
    ⟨_, hmem, fun stores next hok => by simp [hrefused stores] at hok⟩ NameMap.empty
  refine ⟨damage, by rw [hfold]; rfl, fun restored hrestored => ?_⟩
  cases halone : (q.without files).entries.foldlM (p.restoreStore registry) NameMap.empty with
  | error other => simp [halone, Except.map] at hrestored
  | ok stores => exact hblame stores halone

end Project

namespace Database

open Directory Project

variable {digest : String → String} {p q : Project} {files : Directory} {database : Database}

/-- A project with another stem does not see the files of a project whose stores it cannot mistake for
its own. -/
theorem openProject_without (hstem : p.stem ≠ q.stem)
    (h : ¬ (p.Covers q ∧ p.HasTypes files ∧ q.HasStore files)) :
    openProject digest p files = openProject digest p (q.without files) := by
  refine openProject_congr (restore?_congr (read?_schemaFile_without hstem).symm
    fun htypes named => ?_) (read?_logFile_without hstem).symm
  rw [get?_without]
  split
  next howns =>
      obtain ⟨rest, store, hrest, hlegal, -, hfile⟩ := howns.of_storeFile.resolve_left hstem
      rw [Option.eq_none_iff_forall_ne_some]
      intro text htext
      exact h ⟨⟨rest, hrest⟩, htypes, store, text, hlegal, by rw [read?, hfile]; exact htext⟩
  next => rfl

/-- With the files of a project whose stores it mistakes for its own, a project is never opened as it
is without them. -/
theorem openProject_ne (hcovers : p.Covers q) (htypes : p.HasTypes files)
    (hstore : q.HasStore files) (h : openProject digest p (q.without files) = .ok database) :
    openProject digest p files ≠ .ok database := by
  intro hboth
  obtain ⟨hstem, named, text, howns, htext⟩ := hcovers.exists_storeFile hstore
  obtain ⟨rest, store, -, -, rfl, -⟩ := howns.of_storeFile.resolve_left hstem
  have halone : p.HasTypes (q.without files) := by
    rwa [HasTypes, read?_schemaFile_without hstem]
  have hkept := (contains_of_openProject htypes hboth).mpr
    (Or.inr (NameMap.contains_of_get? htext))
  rcases (contains_of_openProject halone h).mp hkept with hmain | hfile
  · have hpoint : '.' ∈ mainStore.toList := by
      rw [← hmain]
      simp
    exact absurd hpoint (by decide)
  · rw [NameMap.contains, get?_without, if_pos howns] at hfile
    exact absurd hfile (by simp)

/-- Projects with one stem have the same files, unless their paths leave the directory. -/
theorem openProject_without_of_stem_eq (digest : String → String) (hstem : p.stem = q.stem)
    (files : Directory) :
    openProject digest p files = openProject digest p (q.without files) ∨
      openProject digest p (q.without files) = .ok ⟨some p, .initial, .empty⟩ := by
  by_cases hstays : q.Stays
  · have hmissing : ∀ {ending : String}, '/' ∉ ending.toList →
        (∀ file, fileAt? (q.name ++ ending) = some file → q.Owns file) →
          (q.without files).read? (p.name ++ ending) = none := by
      intro ending hending howns
      rw [read?, Option.bind_eq_none_iff]
      intro file hfile
      obtain ⟨-, hadmits, rfl⟩ := (fileAt?_append hending).mp hfile
      rw [hstem] at hadmits ⊢
      rw [get?_without, if_pos (howns _ ((fileAt?_append hending).mpr ⟨hstays, hadmits, rfl⟩))]
    exact Or.inr (openProject_of_missing digest
      (hmissing slash_not_mem_schema fun _ => Or.inl)
      (hmissing slash_not_mem_log fun _ hfile => Or.inr (Or.inl hfile)))
  · have hnone : ∀ file, ¬ q.Owns file := by
      rintro file (hschema | hlog | ⟨store, hlegal, hfile⟩)
      · exact hstays ((fileAt?_append slash_not_mem_schema).mp hschema).1
      · exact hstays ((fileAt?_append slash_not_mem_log).mp hlog).1
      · rw [storeFile_eq] at hfile
        exact hstays ((fileAt?_append
          (slash_not_mem_storeTail hlegal.isWord.slash_not_mem)).mp hfile).1
    have hsame : q.without files = files := NameMap.ext_get? fun file => by
      rw [get?_without, if_neg (hnone file)]
    exact Or.inl (by rw [hsame])

/-- What the files of one project in a directory do to another.

A project with another stem is opened as it is without them, unless it can restore its types and its
name with a point starts the stem of the other project, of which there is some store.  In this case it
is never opened as it is without them; where these stores name the project they belong to, it is not
opened at all, and unless there is other damage, one of them is said to belong to the wrong schema.

Projects with one stem share their files; without the files of the one, there is nothing of the
other. -/
theorem openProject_beside (digest : String → String) (p q : Project) (files : Directory) :
    (p.stem ≠ q.stem → ¬ (p.Covers q ∧ p.HasTypes files ∧ q.HasStore files) →
        openProject digest p files = openProject digest p (q.without files)) ∧
      (p.Covers q → p.HasTypes files → q.HasStore files →
        (∀ database, openProject digest p (q.without files) = .ok database →
          openProject digest p files ≠ .ok database) ∧
        (q.Labelled files → ∃ damage, openProject digest p files = .error (.corruption damage) ∧
          ∀ database, openProject digest p (q.without files) = .ok database →
            p.Mistaken q damage)) ∧
      (p.stem = q.stem →
        openProject digest p files = openProject digest p (q.without files) ∨
          openProject digest p (q.without files) = .ok ⟨some p, .initial, .empty⟩) := by
  refine ⟨openProject_without, fun hcovers htypes hstore => ⟨fun database => ?_, fun hlabelled => ?_⟩,
    fun hstem => openProject_without_of_stem_eq digest hstem files⟩
  · exact openProject_ne hcovers htypes hstore
  · obtain ⟨damage, hdamage, hmistaken⟩ := hlabelled.restore? hcovers htypes hstore
    refine ⟨damage, openProject_of_damage hdamage, fun database h => ?_⟩
    obtain ⟨restored, hrestored, -⟩ := restore?_of_openProject h
    exact hmistaken restored hrestored

/-- The files of two projects without types, of which the second has a store without roots. -/
def neighbourFiles : Directory :=
  .ofList [("demo.schema.json", (SchemaDocument.ofRegistry .initial).render),
    ("demo.v2.schema.json", (SchemaDocument.ofRegistry .initial).render),
    ("demo.v2.main.store.json",
      (StoreDocument.ofStore .initial "demo.v2" NameMap.empty).render)]

theorem get?_neighbourFiles (file : String) : neighbourFiles.get? file =
    if "demo.schema.json" = file then some (SchemaDocument.ofRegistry .initial).render
    else if "demo.v2.schema.json" = file then some (SchemaDocument.ofRegistry .initial).render
    else if "demo.v2.main.store.json" = file then
      some (StoreDocument.ofStore .initial "demo.v2" NameMap.empty).render
    else none := by
  rw [neighbourFiles, NameMap.get?_ofList (by decide), NameMap.lookup_cons, NameMap.lookup_cons,
    NameMap.lookup_cons, NameMap.lookup_nil]

/-- The only store file is the one of the second project. -/
theorem of_get?_neighbourFiles {store text : String}
    (h : neighbourFiles.get? (p.storeFile store) = some text) :
    p.storeFile store = "demo.v2.main.store.json" ∧
      text = (StoreDocument.ofStore .initial "demo.v2" NameMap.empty).render := by
  have hfirst : "demo.schema.json" ≠ p.storeFile store := fun hsame =>
    append_schema_ne "demo" p.name store (Eq.trans (by decide) (hsame.trans (storeFile_eq p store)))
  have hsecond : "demo.v2.schema.json" ≠ p.storeFile store := fun hsame =>
    append_schema_ne "demo.v2" p.name store
      (Eq.trans (by decide) (hsame.trans (storeFile_eq p store)))
  rw [get?_neighbourFiles, if_neg hfirst, if_neg hsecond, Option.ite_none_right_eq_some] at h
  exact ⟨h.1.symm, (Option.some.inj h.2).symm⟩

theorem hasTypes_neighbourFiles : HasTypes ⟨"", "demo"⟩ neighbourFiles := by
  have hschema : fileAt? (schemaFile ⟨"", "demo"⟩) = some "demo.schema.json" := rfl
  exact ⟨_, _, _, by rw [read?, hschema, Option.bind_some, get?_neighbourFiles, if_pos rfl],
    SchemaDocument.parse?_render _ rfl,
    SchemaDocument.restore_ofRegistry Registry.wellFormed_initial Content.sound_initial.hasWords⟩

/-- Without the files of the second project, the first opens. -/
theorem openProject_neighbourFiles : ∃ database,
    openProject id ⟨"", "demo"⟩ (without ⟨"", "demo.v2"⟩ neighbourFiles) = .ok database := by
  have hstem : stem ⟨"", "demo"⟩ ≠ stem ⟨"", "demo.v2"⟩ := by decide
  have hlog : fileAt? (logFile ⟨"", "demo"⟩) = some "demo.changelog.jsonl" := rfl
  have howns : Owns ⟨"", "demo.v2"⟩ "demo.v2.main.store.json" :=
    .inr (.inr ⟨mainStore, by decide, rfl⟩)
  obtain ⟨registry, hrestore⟩ := hasTypes_neighbourFiles.restore?
  have hnone : ∀ (stores : Stores) store text, (storeFile ⟨"", "demo"⟩ store, text) ∈
      (without ⟨"", "demo.v2"⟩ neighbourFiles).entries →
        restoreStore ⟨"", "demo"⟩ registry stores (storeFile ⟨"", "demo"⟩ store, text) =
          .ok (stores.insert store NameMap.empty) := by
    intro stores store text hmem
    obtain ⟨hmem, hnot⟩ := mem_entries_without.mp hmem
    obtain ⟨hfile, -⟩ := of_get?_neighbourFiles (NameMap.get?_eq_some_iff.mpr hmem)
    exact absurd (hfile ▸ howns) hnot
  obtain ⟨stores, hstores, -⟩ := foldlM_restoreStore hnone NameMap.empty
  have hledger : restoreLedger ⟨"", "demo"⟩ id (without ⟨"", "demo.v2"⟩ neighbourFiles) =
      .ok .empty := by
    rw [restoreLedger, read?_logFile_without hstem, read?, hlog, Option.bind_some,
      get?_neighbourFiles, if_neg (by decide), if_neg (by decide), if_neg (by decide)]
  rw [openProject, hrestore _ (read?_schemaFile_without hstem), hstores, hledger]
  exact ⟨_, rfl⟩

/-- The first project fails to open beside the second, but not the second beside the first. -/
theorem openProject_beside_demo :
    Covers ⟨"", "demo"⟩ ⟨"", "demo.v2"⟩ ∧ HasTypes ⟨"", "demo"⟩ neighbourFiles ∧
      HasStore ⟨"", "demo.v2"⟩ neighbourFiles ∧ Labelled ⟨"", "demo.v2"⟩ neighbourFiles ∧
      (∃ database,
        openProject id ⟨"", "demo"⟩ (without ⟨"", "demo.v2"⟩ neighbourFiles) = .ok database) ∧
      (∃ damage, openProject id ⟨"", "demo"⟩ neighbourFiles = .error (.corruption damage) ∧
        Mistaken ⟨"", "demo"⟩ ⟨"", "demo.v2"⟩ damage) ∧
      openProject id ⟨"", "demo.v2"⟩ neighbourFiles =
        openProject id ⟨"", "demo.v2"⟩ (without ⟨"", "demo"⟩ neighbourFiles) := by
  have hcovers : Covers ⟨"", "demo"⟩ ⟨"", "demo.v2"⟩ := ⟨"v2", rfl⟩
  have hmain : fileAt? (storeFile ⟨"", "demo.v2"⟩ mainStore) = some "demo.v2.main.store.json" := by
    decide +kernel
  have hstore : HasStore ⟨"", "demo.v2"⟩ neighbourFiles :=
    ⟨mainStore, _, by decide, by
      rw [read?, hmain, Option.bind_some, get?_neighbourFiles, if_neg (by decide),
        if_neg (by decide), if_pos rfl]⟩
  have hlabelled : Labelled ⟨"", "demo.v2"⟩ neighbourFiles := by
    intro store text hlegal hread
    obtain ⟨file, hfile, htext⟩ := Option.bind_eq_some_iff.mp hread
    obtain rfl : file = storeFile ⟨"", "demo.v2"⟩ store :=
      eq_of_fileAt? (by
        rw [storeFile_eq, String.toList_append, List.mem_append, not_or]
        exact ⟨by decide, slash_not_mem_storeTail hlegal.isWord.slash_not_mem⟩) hfile
    obtain ⟨-, rfl⟩ := of_get?_neighbourFiles htext
    have hnone : (StoreDocument.ofStore .initial "demo.v2" NameMap.empty).roots.entries = [] := rfl
    have hreadable : (StoreDocument.ofStore .initial "demo.v2" NameMap.empty).Readable :=
      ⟨by simp [hnone], by simp [hnone], Nat.le_of_ble_eq_true rfl⟩
    exact ⟨_, hreadable.parse?_render, rfl, rfl⟩
  obtain ⟨-, hmistakes, -⟩ := openProject_beside id ⟨"", "demo"⟩ ⟨"", "demo.v2"⟩ neighbourFiles
  obtain ⟨halone, -, -⟩ := openProject_beside id ⟨"", "demo.v2"⟩ ⟨"", "demo"⟩ neighbourFiles
  obtain ⟨-, hfails⟩ := hmistakes hcovers hasTypes_neighbourFiles hstore
  obtain ⟨damage, hdamage, hmistaken⟩ := hfails hlabelled
  obtain ⟨database, hopened⟩ := openProject_neighbourFiles
  refine ⟨hcovers, hasTypes_neighbourFiles, hstore, hlabelled, ⟨database, hopened⟩,
    ⟨damage, hdamage, hmistaken database hopened⟩, halone (by decide) ?_⟩
  rintro ⟨⟨rest, hrest⟩, -⟩
  rw [stem_of_slash_not_mem (by decide)] at hrest
  have hlength := congrArg (fun text : String => text.toList.length) hrest
  simp at hlength

end Database
end LiveSchema
