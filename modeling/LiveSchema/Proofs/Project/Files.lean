import LiveSchema.Project.Basic
import LiveSchema.Proofs.NameMap
import LiveSchema.Proofs.Text

/-!
# Files of a project

All paths of a project start with its name, so two of them lead to one file only if they end in the
same way.  What is written under one path is therefore read under it until that path is written again,
and a file that no path leads to is left alone.
-/

namespace LiveSchema
namespace Directory

variable {files after : Directory} {name path text file : String}

/-! ## Paths -/

theorem not_mem_of_fileAt? (h : fileAt? path = some file) : '/' ∉ file.toList := by
  rw [fileAt?] at h
  split at h
  next hfits =>
      obtain rfl := Option.some.inj h
      intro hmem
      have hall := List.all_eq_true.mp (Bool.and_eq_true_iff.mp hfits.2.2).2 _ hmem
      exact absurd hall (by decide)
  next => exact absurd h (by simp)

/-- The file that a path leads to is named by the last step. -/
theorem toList_of_fileAt? (h : fileAt? path = some file) :
    file.toList = (path.toList.splitOn '/').getLastD [] := by
  rw [fileAt?] at h
  split at h
  next =>
      obtain rfl := Option.some.inj h
      rw [String.toList_ofList]
  next => exact absurd h (by simp)

/-- A path without slashes leads to the file of the same name. -/
theorem eq_of_fileAt? (hplain : '/' ∉ path.toList) (h : fileAt? path = some file) : file = path := by
  have hfile := toList_of_fileAt? h
  rw [List.splitOn_eq_singleton hplain] at hfile
  exact String.toList_inj.mp hfile

/-- Paths that start in the same way and lead to one file are equal. -/
theorem ending_eq_of_fileAt? {first second : String} (hfirst : '/' ∉ first.toList)
    (hsecond : '/' ∉ second.toList) (h : fileAt? (name ++ first) = some file)
    (h' : fileAt? (name ++ second) = some file) : first = second := by
  obtain ⟨before, base, hsplit⟩ := Text.exists_splitOn_append '/' name.toList
  have hone := toList_of_fileAt? h
  have hother := toList_of_fileAt? h'
  rw [String.toList_append, hsplit _ hfirst, List.getLastD_concat] at hone
  rw [String.toList_append, hsplit _ hsecond, List.getLastD_concat] at hother
  exact String.toList_inj.mp (List.append_cancel_left (hone.symm.trans hother))

/-! ## Writing -/

theorem write_eq_ok : files.write path text = .ok after ↔
    ∃ file, fileAt? path = some file ∧ after = files.insert file text := by
  rw [write]
  cases hfile : fileAt? path with
  | none => simp
  | some file =>
      simp only [Except.ok.injEq, Option.some.injEq]
      exact ⟨fun h => ⟨file, rfl, h.symm⟩, fun h => by
        obtain ⟨_, rfl, h⟩ := h
        exact h.symm⟩

/-- Files can only fail to be written. -/
theorem writeAll_cases (files : Directory) (documents : List (String × String)) :
    (files.writeAll documents).2 = .ok () ∨
      ∃ path, (files.writeAll documents).2 = .error (.persistence path) := by
  induction documents generalizing files with
  | nil => exact .inl rfl
  | cons document rest ih =>
      obtain ⟨path, text⟩ := document
      rw [writeAll]
      cases hwrite : files.write path text with
      | ok after => exact ih after
      | error error =>
          rw [write] at hwrite
          split at hwrite
          · exact absurd hwrite (by simp)
          · exact .inr ⟨path, by simp [Except.error.inj hwrite]⟩

/-- Documents whose paths lead to files of the directory can all be written. -/
theorem writeAll_of_isSome {documents : List (String × String)}
    (h : ∀ document ∈ documents, (fileAt? document.1).isSome = true) (files : Directory) :
    (files.writeAll documents).2 = .ok () := by
  induction documents generalizing files with
  | nil => rfl
  | cons document rest ih =>
      obtain ⟨hfirst, hrest⟩ := List.forall_mem_cons.mp h
      obtain ⟨file, hfile⟩ := Option.isSome_iff_exists.mp hfirst
      have hwrite : files.write document.1 document.2 = .ok (files.insert file document.2) :=
        write_eq_ok.mpr ⟨file, hfile, rfl⟩
      rw [writeAll, hwrite]
      exact ih hrest _

/-- The documents are meant for different files. -/
def Distinct (documents : List (String × String)) : Prop :=
  documents.Pairwise fun a b => ∀ file, fileAt? a.1 = some file → fileAt? b.1 ≠ some file

/-- Documents that were written to different files can be read, and all other files are as before. -/
theorem writeAll_ok {documents : List (String × String)} (hdistinct : Distinct documents)
    (h : (files.writeAll documents).2 = .ok ()) :
    (∀ document ∈ documents, ∃ file, fileAt? document.1 = some file ∧
        (files.writeAll documents).1.get? file = some document.2) ∧
      ∀ file, (∀ document ∈ documents, fileAt? document.1 ≠ some file) →
        (files.writeAll documents).1.get? file = files.get? file := by
  induction documents generalizing files with
  | nil => exact ⟨fun document hmem => absurd hmem List.not_mem_nil, fun file _ => rfl⟩
  | cons document rest ih =>
      obtain ⟨path, text⟩ := document
      obtain ⟨hfirst, hrest⟩ := List.pairwise_cons.mp hdistinct
      rw [writeAll] at h ⊢
      cases hwrite : files.write path text with
      | error error =>
          rw [hwrite] at h
          exact absurd h (by simp)
      | ok written =>
          rw [hwrite] at h
          obtain ⟨file, hfile, rfl⟩ := write_eq_ok.mp hwrite
          obtain ⟨hread, hkept⟩ := ih hrest h
          dsimp only at hread hkept ⊢
          constructor
          · intro document hmem
            rcases List.mem_cons.mp hmem with rfl | hmem
            · refine ⟨file, hfile, ?_⟩
              rw [hkept file fun other hother => hfirst other hother file hfile, NameMap.get?_insert,
                if_pos rfl]
            · exact hread document hmem
          · intro other hother
            have hne : file ≠ other := by
              rintro rfl
              exact hother _ List.mem_cons_self hfile
            rw [hkept other fun document hmem => hother document (List.mem_cons_of_mem _ hmem),
              NameMap.get?_insert, if_neg hne]

end Directory

/-! ## Documents of a project -/

namespace Project

variable {project : Project} {file store : String}

/-- How the path of a store file ends. -/
def storeTail (store : String) : String :=
  "." ++ store ++ storeEnding

theorem storeFile_eq (project : Project) (store : String) :
    project.storeFile store = project.name ++ storeTail store := by
  simp only [storeFile, storeTail, String.append_assoc]

theorem slash_not_mem_name (h : '/' ∉ (project.storeFile store).toList) :
    '/' ∉ project.name.toList := by
  rw [storeFile_eq, String.toList_append, List.mem_append, not_or] at h
  exact h.1

theorem storeTail_inj {other : String} (h : storeTail store = storeTail other) : store = other := by
  have hlists := congrArg String.toList h
  simp only [storeTail, String.toList_append] at hlists
  exact String.toList_inj.mp (List.append_cancel_left (List.append_cancel_right hlists))

/-- The last letter tells a store file from the other files. -/
theorem getLast?_storeTail (store : String) : (storeTail store).toList.getLast? = some 'n' := by
  rw [storeTail, String.toList_append, List.getLast?_append]
  rfl

/-- No store file ends like a schema file. -/
theorem append_schema_ne (text other store : String) :
    text ++ ".schema.json" ≠ other ++ storeTail store := by
  intro h
  have hlists := congrArg String.toList h
  have hschema : ".schema.json".toList = ".".toList ++ "schema.json".toList := by decide
  rw [storeTail, String.toList_append, String.toList_append, String.toList_append, hschema,
    ← List.append_assoc, ← List.append_assoc] at hlists
  exact absurd (List.append_inj_right' hlists (by decide)) (by decide)

theorem storeTail_ne_schema : storeTail store ≠ ".schema.json" := fun h =>
  append_schema_ne "" "" store (by rw [h])

/-- No store file ends like a log. -/
theorem append_log_ne (text other store : String) :
    text ++ ".changelog.jsonl" ≠ other ++ storeTail store := by
  intro h
  have hlast := congrArg (fun text : String => text.toList.getLast?) h
  simp [List.getLast?_append, getLast?_storeTail] at hlast

theorem storeTail_ne_log : storeTail store ≠ ".changelog.jsonl" := fun h =>
  append_log_ne "" "" store (by rw [h])

theorem storeOfFile?_eq_some : project.storeOfFile? file = some store ↔
    file = project.storeFile store := by
  have hpath : (project.storeFile store).toList =
      (project.name ++ ".").toList ++ (store.toList ++ storeEnding.toList) := by
    simp only [storeFile, String.toList_append, List.append_assoc]
  rw [storeOfFile?]
  constructor
  · intro h
    split at h
    next hprefix =>
        obtain ⟨rest, hrest⟩ := List.isPrefixOf_iff_prefix.mp hprefix
        rw [← hrest, List.drop_left] at h
        dsimp only at h
        split at h
        next hsuffix =>
            obtain ⟨front, hfront⟩ := List.isSuffixOf_iff_suffix.mp hsuffix
            rw [← hfront, List.length_append, Nat.add_sub_cancel, List.take_left] at h
            rw [← String.toList_inj, hpath, ← hrest, ← hfront, ← Option.some.inj h,
              String.toList_ofList]
        next => exact absurd h (by simp)
    next => exact absurd h (by simp)
  · rintro rfl
    rw [hpath]
    dsimp only
    rw [if_pos (List.isPrefixOf_iff_prefix.mpr (List.prefix_append _ _)), List.drop_left,
      if_pos (List.isSuffixOf_iff_suffix.mpr (List.suffix_append _ _)), List.length_append,
      Nat.add_sub_cancel, List.take_left, String.ofList_toList]

/-! ## Which documents go to which files -/

theorem slash_not_mem_schema : '/' ∉ ".schema.json".toList := by decide

theorem slash_not_mem_log : '/' ∉ ".changelog.jsonl".toList := by decide

theorem slash_not_mem_storeTail (h : '/' ∉ store.toList) : '/' ∉ (storeTail store).toList := by
  have hending : '/' ∉ storeEnding.toList := by decide
  have hpoint : '/' ∉ ".".toList := by decide
  simp only [storeTail, String.toList_append, List.mem_append, not_or]
  exact ⟨⟨hpoint, h⟩, hending⟩

/-- A file that has the whole path of a store file as its name is that store file, and the name of the
project has no steps. -/
theorem eq_storeTail_of_fileAt? {ending : String} (hending : '/' ∉ ending.toList)
    (h : Directory.fileAt? (project.name ++ ending) = some (project.storeFile store)) :
    ending = storeTail store ∧ '/' ∉ project.name.toList := by
  have hname := slash_not_mem_name (Directory.not_mem_of_fileAt? h)
  have hsame := Directory.eq_of_fileAt?
    (by rw [String.toList_append, List.mem_append, not_or]; exact ⟨hname, hending⟩) h
  rw [storeFile_eq, ← String.toList_inj, String.toList_append, String.toList_append] at hsame
  exact ⟨String.toList_inj.mp (List.append_cancel_left hsame.symm), hname⟩

variable {content : Content} {document : String × String}

/-- The path of a document is the name of the project with an ending that tells what it holds. -/
theorem path_of_mem_documents (hmem : document ∈ project.documents content) :
    ∃ ending, document.1 = project.name ++ ending ∧
      (ending = ".schema.json" ∨
        ∃ store, content.stores.contains store = true ∧ ending = storeTail store) := by
  rcases List.mem_cons.mp hmem with rfl | hmem
  · exact ⟨_, rfl, Or.inl rfl⟩
  · obtain ⟨⟨store, kept⟩, hstore, rfl⟩ := List.mem_map.mp hmem
    have hcontains := NameMap.contains_of_get? (NameMap.get?_eq_some_iff.mpr hstore)
    exact ⟨_, storeFile_eq project store, Or.inr ⟨store, hcontains, rfl⟩⟩

/-- The paths of all files that a content needs lead to files of the directory. -/
structure CanHold (project : Project) (content : Content) : Prop where
  log : (Directory.fileAt? project.logFile).isSome = true
  documents : ∀ document ∈ project.documents content,
    (Directory.fileAt? document.1).isSome = true

/-- A content with the main store alone needs three files. -/
theorem canHold_of_names (hnames : content.stores.names = [mainStore])
    (hlog : (Directory.fileAt? project.logFile).isSome = true)
    (hschema : (Directory.fileAt? project.schemaFile).isSome = true)
    (hmain : (Directory.fileAt? (project.storeFile mainStore)).isSome = true) :
    project.CanHold content := by
  refine ⟨hlog, List.forall_mem_cons.mpr ⟨hschema, fun document hdocument => ?_⟩⟩
  obtain ⟨⟨store, kept⟩, hstore, rfl⟩ := List.mem_map.mp hdocument
  have hname : store ∈ content.stores.names := List.mem_map_of_mem hstore
  rw [hnames, List.mem_singleton] at hname
  exact hname ▸ hmain

section

variable (hnames : ∀ store, content.stores.contains store = true → '/' ∉ store.toList)
include hnames

theorem slash_not_mem_ending {ending : String} (h : ending = ".schema.json" ∨
    ∃ store, content.stores.contains store = true ∧ ending = storeTail store) :
    '/' ∉ ending.toList := by
  rcases h with rfl | ⟨store, hstore, rfl⟩
  · exact slash_not_mem_schema
  · exact slash_not_mem_storeTail (hnames store hstore)

/-- The documents of a project are meant for different files. -/
theorem distinct_documents : Directory.Distinct (project.documents content) := by
  have hstored : ∀ entry ∈ content.stores.entries, '/' ∉ (storeTail entry.1).toList := by
    intro entry hentry
    have hcontains := NameMap.contains_of_get? (NameMap.get?_eq_some_iff.mpr hentry)
    exact slash_not_mem_storeTail (hnames entry.1 hcontains)
  refine List.pairwise_cons.mpr ⟨fun document hmem file hschema hdocument => ?_, ?_⟩
  · obtain ⟨⟨name, kept⟩, hentry, rfl⟩ := List.mem_map.mp hmem
    dsimp only at hdocument
    rw [storeFile_eq] at hdocument
    exact storeTail_ne_schema (Directory.ending_eq_of_fileAt? (hstored _ hentry)
      slash_not_mem_schema hdocument hschema)
  · have hnodup := List.pairwise_map.mp content.stores.nodup_names
    refine List.pairwise_map.mpr (hnodup.imp_of_mem fun {a b} ha hb hne file hfirst hsecond => ?_)
    dsimp only at hfirst hsecond
    rw [storeFile_eq] at hfirst hsecond
    exact hne (storeTail_inj (Directory.ending_eq_of_fileAt? (hstored a ha) (hstored b hb) hfirst
      hsecond))

/-- No document goes to the log. -/
theorem fileAt?_ne_log (hmem : document ∈ project.documents content) {file : String}
    (hlog : Directory.fileAt? project.logFile = some file) :
    Directory.fileAt? document.1 ≠ some file := by
  intro hdocument
  obtain ⟨ending, hpath, hending⟩ := path_of_mem_documents hmem
  rw [hpath] at hdocument
  have hsame := Directory.ending_eq_of_fileAt? (slash_not_mem_ending hnames hending)
    slash_not_mem_log hdocument hlog
  rcases hending with rfl | ⟨store, -, rfl⟩
  · exact absurd hsame (by decide)
  · exact storeTail_ne_log hsame

/-- A document that goes to a file with the path of a store file as its name is the document of that
store. -/
theorem contains_of_fileAt? (hmem : document ∈ project.documents content)
    (h : Directory.fileAt? document.1 = some (project.storeFile store)) :
    content.stores.contains store = true ∧ '/' ∉ project.name.toList := by
  obtain ⟨ending, hpath, hending⟩ := path_of_mem_documents hmem
  rw [hpath] at h
  obtain ⟨hsame, hname⟩ := eq_storeTail_of_fileAt? (slash_not_mem_ending hnames hending) h
  refine ⟨?_, hname⟩
  rcases hending with rfl | ⟨other, hother, rfl⟩
  · exact absurd hsame.symm storeTail_ne_schema
  · exact storeTail_inj hsame ▸ hother

end

end Project
end LiveSchema
