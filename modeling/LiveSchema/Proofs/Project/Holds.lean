import LiveSchema.Database
import LiveSchema.Proofs.Ledger.Reading
import LiveSchema.Proofs.Project.Files
import LiveSchema.Proofs.Project.Types

/-!
# What the files of a project hold

After a mutation whose files could be written, the files of a project hold the content and the log of
the database, and no store besides those of the content.  Reading them gives the content back with its
types at other places.
-/

namespace LiveSchema
namespace Project

open Directory

variable {project : Project} {files : Directory} {content : Content} {ledger : Ledger}

/-- Nothing of a project is in a directory. -/
structure Absent (project : Project) (files : Directory) : Prop where
  schema : files.read? project.schemaFile = none
  log : files.read? project.logFile = none
  stores : ∀ store, files.contains (project.storeFile store) = false

/-- The files hold a log, and no store that a content has not. -/
structure HoldsLog (project : Project) (files : Directory) (content : Content) (ledger : Ledger) :
    Prop where
  log : ((files.read? project.logFile).getD "").toList = ledger.fileText
  strays : ∀ store, files.contains (project.storeFile store) = true →
    content.stores.contains store = true ∧ '/' ∉ project.name.toList

/-- The files hold a content and a log. -/
structure Holds (project : Project) (files : Directory) (content : Content) (ledger : Ledger) : Prop
    extends HoldsLog project files content ledger where
  schema : files.read? project.schemaFile = some (SchemaDocument.ofRegistry content.registry).render
  stores : ∀ store kept, content.stores.get? store = some kept →
    files.read? (project.storeFile store) =
      some (StoreDocument.ofStore content.registry project.name kept).render

/-- Nothing of a project is in an empty directory. -/
theorem absent_empty (project : Project) : project.Absent NameMap.empty where
  schema := by simp [Directory.read?, Option.bind_eq_none_iff]
  log := by simp [Directory.read?, Option.bind_eq_none_iff]
  stores _ := rfl

theorem Absent.holdsLog (h : project.Absent files) (content : Content) :
    project.HoldsLog files content .empty where
  log := by rw [h.log]; rfl
  strays store hstore := absurd hstore (by simp [h.stores store])

/-- One more record was added at the end of the log. -/
theorem HoldsLog.append {record : AuditRecord} {after : Directory}
    (h : project.HoldsLog files content ledger)
    (happend : files.append project.logFile (record.render ++ "\n") = .ok after) :
    project.HoldsLog after content (ledger.push record) := by
  obtain ⟨file, hfile, rfl⟩ := write_eq_ok.mp happend
  constructor
  · rw [Directory.read?, hfile, Option.bind_some, NameMap.get?_insert, if_pos rfl, Option.getD_some,
      String.toList_append, String.toList_append, h.log, Ledger.fileText_push]
    rfl
  · intro store hstore
    rcases NameMap.contains_insert.mp hstore with rfl | hstore
    · exact absurd (eq_storeTail_of_fileAt? slash_not_mem_log hfile).1.symm storeTail_ne_log
    · exact h.strays store hstore

/-- All documents of a content were written. -/
theorem HoldsLog.writeAll {after : Content} (h : project.HoldsLog files content ledger)
    (hkept : ∀ store, content.stores.contains store = true → after.stores.contains store = true)
    (hnames : ∀ store, after.stores.contains store = true → '/' ∉ store.toList)
    (hok : (files.writeAll (project.documents after)).2 = .ok ()) :
    project.Holds (files.writeAll (project.documents after)).1 after ledger := by
  obtain ⟨hwritten, hothers⟩ := writeAll_ok (distinct_documents hnames) hok
  have hread : ∀ document ∈ project.documents after,
      (files.writeAll (project.documents after)).1.read? document.1 = some document.2 := by
    intro document hmem
    obtain ⟨file, hfile, hget⟩ := hwritten document hmem
    rw [Directory.read?, hfile, Option.bind_some, hget]
  have hlog : (files.writeAll (project.documents after)).1.read? project.logFile =
      files.read? project.logFile := by
    rw [Directory.read?, Directory.read?]
    cases hfile : fileAt? project.logFile with
    | none => rfl
    | some file => exact hothers file fun document hmem => fileAt?_ne_log hnames hmem hfile
  have hschema := hread (project.schemaFile, (SchemaDocument.ofRegistry after.registry).render)
    List.mem_cons_self
  refine ⟨⟨by rw [hlog, h.log], fun store hstore => ?_⟩, hschema, ?_⟩
  · -- a file with this name was written for the store just now, or it was there before
    by_cases hnew : ∃ document ∈ project.documents after,
        fileAt? document.1 = some (project.storeFile store)
    · obtain ⟨document, hmem, hfile⟩ := hnew
      exact contains_of_fileAt? hnames hmem hfile
    · rw [NameMap.contains, hothers _ fun document hmem hfile => hnew ⟨document, hmem, hfile⟩]
        at hstore
      obtain ⟨hold, hname⟩ := h.strays store hstore
      exact ⟨hkept store hold, hname⟩
  · intro store kept hstore
    refine hread (project.storeFile store,
      (StoreDocument.ofStore after.registry project.name kept).render) (List.mem_cons_of_mem _ ?_)
    exact List.mem_map.mpr ⟨(store, kept), NameMap.get?_eq_some_iff.mp hstore, rfl⟩

/-! ## Reading stores back -/

end Project

namespace StoreDocument

variable {registry other : Registry} {ρ : TypeHandle → TypeHandle} {kept : Store}

/-- The document of a store gives the store back, with its types at other places. -/
theorem restore_ofStore (hmirrors : registry.Mirrors other ρ) (hwf : registry.WellFormed)
    (hwords : registry.HasWords)
    (hlegal : ∀ name root, NameMap.get? kept name = some root → registry.Legal root.type)
    (project store : String) :
    (ofStore registry project kept).restore other project store =
      .ok (NameMap.mapValues kept fun _ root => root.relocate ρ) := by
  have hroot : ∀ entry ∈ kept.entries,
      (restoreRoot other ∘ fun entry : String × Root =>
        (entry.1, (⟨registry.render entry.2.type, entry.2.value⟩ : RootDocument))) entry =
          .ok (entry.1, entry.2.relocate ρ) := by
    rintro ⟨name, root⟩ hentry
    have htype := hmirrors.restoreReference hwf hwords
      (hlegal name root (NameMap.get?_eq_some_iff.mpr hentry)) name
    simp only [Function.comp_apply, restoreRoot, htype]
    rfl
  have hroots : (ofStore registry project kept).roots.entries.mapM (restoreRoot other) =
      .ok (NameMap.mapValues kept fun _ root => root.relocate ρ).entries := by
    rw [ofStore, NameMap.mapValues, List.mapM_map]
    exact mapM_ok hroot
  have hformat : (ofStore registry project kept).format = storeFormat := rfl
  have hschema : (ofStore registry project kept).schema = project := rfl
  rw [restore]
  simp only [hformat, hschema, ne_eq, not_true_eq_false, if_false, hroots]
  exact congrArg Except.ok (NameMap.ofList_entries _)

end StoreDocument

namespace Project

variable {project : Project} {files : Directory} {content : Content} {ledger : Ledger}
  {other : Registry} {ρ : TypeHandle → TypeHandle}

theorem storeFile_inj {first second : String} (h : project.storeFile first = project.storeFile second) :
    first = second := by
  have hfirst : project.storeOfFile? (project.storeFile first) = some second :=
    storeOfFile?_eq_some.mpr h
  exact Option.some.inj ((storeOfFile?_eq_some.mpr rfl).symm.trans hfirst)

/-- Files are read in any order, and each file of a store puts in the store of its name. -/
theorem foldlM_restoreStore {image : String → Store} {entries : List (String × String)}
    (h : ∀ stores store text, (project.storeFile store, text) ∈ entries →
      project.restoreStore other stores (project.storeFile store, text) =
        .ok (stores.insert store (image store)))
    (stores : Stores) :
    ∃ result, entries.foldlM (project.restoreStore other) stores = .ok result ∧
      ∀ store, result.get? store =
        if project.storeFile store ∈ entries.map Prod.fst then some (image store)
        else stores.get? store := by
  induction entries generalizing stores with
  | nil => exact ⟨stores, rfl, by simp⟩
  | cons entry rest ih =>
      obtain ⟨file, text⟩ := entry
      have hrest : ∀ stores store text, (project.storeFile store, text) ∈ rest →
          project.restoreStore other stores (project.storeFile store, text) =
            .ok (stores.insert store (image store)) := fun stores store text hmem =>
        h stores store text (List.mem_cons_of_mem _ hmem)
      cases hstore : project.storeOfFile? file with
      | none =>
          obtain ⟨result, hresult, hget⟩ := ih hrest stores
          have hskip : project.restoreStore other stores (file, text) = .ok stores := by
            simp only [restoreStore, hstore]
          refine ⟨result, by rw [List.foldlM_cons, hskip]; exact hresult, fun store => ?_⟩
          have hne : project.storeFile store ≠ file := by
            rintro rfl
            exact absurd (hstore.symm.trans (storeOfFile?_eq_some.mpr rfl)) (by simp)
          simp only [hget, List.map_cons, List.mem_cons, hne, false_or]
      | some named =>
          obtain rfl := storeOfFile?_eq_some.mp hstore
          obtain ⟨result, hresult, hget⟩ := ih hrest (stores.insert named (image named))
          refine ⟨result, ?_, fun store => ?_⟩
          · rw [List.foldlM_cons, h stores named text List.mem_cons_self]
            exact hresult
          · rw [hget, NameMap.get?_insert]
            by_cases hsame : named = store
            · simp [hsame]
            · have hne : project.storeFile store ≠ project.storeFile named := fun hfile =>
                hsame (storeFile_inj hfile).symm
              simp only [if_neg hsame, List.map_cons, List.mem_cons, hne, false_or]

/-- The stores of a content, with their types at other places, as far as their files are found again:
where the name of the project has steps, none is. -/
def foundStores (project : Project) (content : Content) (ρ : TypeHandle → TypeHandle) : Stores :=
  if '/' ∈ project.name.toList then NameMap.empty else content.stores.relocate ρ

section

variable (h : project.Holds files content ledger)
  (hnames : ∀ store, content.stores.contains store = true → '/' ∉ store.toList)
include h hnames

/-- Where the name of the project has no steps, store files have their paths as names. -/
theorem Holds.get?_storeFile (hname : '/' ∉ project.name.toList) {store : String} {kept : Store}
    (hkept : content.stores.get? store = some kept) :
    files.get? (project.storeFile store) =
      some (StoreDocument.ofStore content.registry project.name kept).render := by
  have hstore : '/' ∉ store.toList :=
    hnames store (NameMap.contains_of_get? hkept)
  have hplain : '/' ∉ (project.storeFile store).toList := by
    rw [storeFile_eq, String.toList_append, List.mem_append, not_or]
    exact ⟨hname, slash_not_mem_storeTail hstore⟩
  obtain ⟨file, hfile, hread⟩ := Option.bind_eq_some_iff.mp (h.stores store kept hkept)
  obtain rfl := Directory.eq_of_fileAt? hplain hfile
  exact hread

/-- A file with the path of a store file as its name has the document of that store in it. -/
theorem Holds.document_of_mem {store text : String}
    (hmem : (project.storeFile store, text) ∈ files.entries) :
    '/' ∉ project.name.toList ∧ ∃ kept, content.stores.get? store = some kept ∧
      text = (StoreDocument.ofStore content.registry project.name kept).render := by
  have hget := NameMap.get?_eq_some_iff.mpr hmem
  obtain ⟨hcontains, hname⟩ := h.strays store (NameMap.contains_of_get? hget)
  obtain ⟨kept, hkept⟩ := Option.isSome_iff_exists.mp hcontains
  exact ⟨hname, kept, hkept, Option.some.inj (hget.symm.trans (h.get?_storeFile hnames hname hkept))⟩

/-- The files of the stores are read one after the other, and each gives back the store it was written
for. -/
theorem Holds.restoreStores (hmirrors : content.registry.Mirrors other ρ)
    (hwf : content.registry.WellFormed) (hwords : content.registry.HasWords)
    (hlegal : content.stores.EveryRoot fun root => content.registry.Legal root.type)
    (hreadable : ∀ store kept, content.stores.get? store = some kept →
      (StoreDocument.ofStore content.registry project.name kept).Readable) :
    files.entries.foldlM (project.restoreStore other) NameMap.empty =
      .ok (project.foundStores content ρ) := by
  have hrelocated : ∀ store, (content.stores.relocate ρ).get? store =
      (content.stores.get? store).map fun kept =>
        NameMap.mapValues kept fun _ root => root.relocate ρ :=
    fun store => NameMap.get?_mapValues content.stores _ store
  have hstep : ∀ stores store text, (project.storeFile store, text) ∈ files.entries →
      project.restoreStore other stores (project.storeFile store, text) =
        .ok (stores.insert store
          (((content.stores.relocate ρ).get? store).getD NameMap.empty)) := by
    intro stores store text hmem
    obtain ⟨hname, kept, hkept, rfl⟩ := h.document_of_mem hnames hmem
    have hstore : project.storeOfFile? (project.storeFile store) = some store :=
      storeOfFile?_eq_some.mpr rfl
    have hparse := (hreadable store kept hkept).parse?_render
    have hrestore := StoreDocument.restore_ofStore hmirrors hwf hwords (fun name root hroot =>
      hlegal store name root (Stores.root?_eq_some_iff.mpr ⟨kept, hkept, hroot⟩)) project.name store
    rw [hrelocated, hkept, Option.map_some, Option.getD_some, restoreStore]
    simp only [hstore, readDocument, hparse]
    exact congrArg (fun answer : Except Damage Store => answer >>= fun held =>
      .ok (stores.insert store held)) hrestore
  obtain ⟨result, hresult, hget⟩ := foldlM_restoreStore hstep NameMap.empty
  rw [hresult]
  refine congrArg Except.ok (NameMap.ext_get? fun store => ?_)
  rw [hget, foundStores]
  by_cases hfile : project.storeFile store ∈ files.entries.map Prod.fst
  · obtain ⟨⟨_, text⟩, hmem, rfl⟩ := List.mem_map.mp hfile
    obtain ⟨hname, kept, hkept, -⟩ := h.document_of_mem hnames hmem
    rw [if_pos hfile, if_neg hname, hrelocated, hkept, Option.map_some, Option.getD_some]
  · rw [if_neg hfile, NameMap.get?_empty]
    split
    next => rfl
    next hname =>
        rw [hrelocated]
        cases hkept : content.stores.get? store with
        | none => rfl
        | some kept =>
            have hget := h.get?_storeFile hnames hname hkept
            exact absurd (NameMap.mem_names_iff.mpr ⟨_, hget⟩) hfile

end

end Project
end LiveSchema
