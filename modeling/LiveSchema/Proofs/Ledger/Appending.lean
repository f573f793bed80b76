import LiveSchema.Database
import LiveSchema.Proofs.Checks
import LiveSchema.Proofs.Json.Trailing
import LiveSchema.Proofs.Ledger.Superhash
import LiveSchema.Proofs.Project.Files

/-!
# Adding to a log that was opened

A log is opened from any file whose lines can be read, and changes are added at the end of that file.
If the file ends in a line without a line feed, the first record that is added continues this line.
The line can then be read only if nothing but blanks stood there before.
-/

namespace LiveSchema

namespace Project

/-- Adds a change to a log and to its file. -/
def appendEntry (project : Project) (digest : String → String) (entry : Entry) (ledger : Ledger)
    (files : Directory) : Except Error (Ledger × Directory) :=
  let record := ledger.nextRecord digest entry.action entry.params entry.time
  (files.append project.logFile (record.render ++ "\n")).map fun files => (ledger.push record, files)

/-- Adds changes one after the other. -/
def appendAll (project : Project) (digest : String → String) :
    List Entry → Ledger → Directory → Except Error (Ledger × Directory)
  | [], ledger, files => .ok (ledger, files)
  | entry :: rest, ledger, files => do
    let (ledger, files) ← project.appendEntry digest entry ledger files
    project.appendAll digest rest ledger files

/-- The text of the file of the log, which is empty if there is no file. -/
def logText (project : Project) (files : Directory) : String :=
  (files.read? project.logFile).getD ""

end Project

/-- A mutation of a database adds its change in this way, before the documents are written. -/
theorem Database.commit_nextRecord {database : Database} {project : Project}
    (hproject : database.project = some project) (digest : String → String) (files : Directory)
    (entry : Entry) :
    database.commit files
        (database.ledger.nextRecord digest entry.action entry.params entry.time) =
      match project.appendEntry digest entry database.ledger files with
      | .error error => (database, files, .error error)
      | .ok (ledger, logged) =>
        ({ database with ledger }, logged.writeAll (project.documents database.content)) := by
  simp only [commit, record, hproject, Project.appendEntry]
  cases files.append project.logFile
    ((database.ledger.nextRecord digest entry.action entry.params entry.time).render ++ "\n") <;> rfl

namespace Ledger

variable {digest : String → String} {ledger later : Ledger} {record : AuditRecord}
  {base : List Char} {number : Nat}

/-- The text behind the last line feed. -/
def unfinished (text : List Char) : List Char :=
  (text.splitOn '\n').getLastD []

/-! ## Lines of a file -/

/-- The first record that is added continues the line at the end of the file; the others have lines of
their own. -/
theorem linesOf_append_fileText (text : List Char) (record : AuditRecord)
    (rest : List AuditRecord) :
    ∃ before, text.splitOn '\n' = before ++ [unfinished text] ∧
      linesOf (text ++ fileText ⟨record :: rest⟩) = before.map ended ++
        (unfinished text ++ record.render.toList) ::
          rest.map fun record => record.render.toList := by
  obtain ⟨before, base, hsplit⟩ := Text.exists_splitOn_append '\n' text
  have hends : text.splitOn '\n' = before ++ [base] := by
    simpa using hsplit [] List.not_mem_nil
  have hbase : unfinished text = base := by rw [unfinished, hends, List.getLastD_concat]
  obtain ⟨body, -, hclean⟩ := record.render_shape
  have hall : (text ++ fileText ⟨record :: rest⟩).splitOn '\n' =
      (before ++ (base ++ record.render.toList) ::
        rest.map fun record => record.render.toList) ++ [[]] := by
    have htext : text ++ fileText ⟨record :: rest⟩ =
        (text ++ record.render.toList) ++ '\n' :: fileText ⟨rest⟩ := by
      simp [fileText]
    rw [htext, List.splitOn_append_cons_self, hsplit _ hclean, splitOn_fileText]
    simp
  refine ⟨before, by rw [hbase, hends], ?_⟩
  rw [linesOf_of_splitOn hall, hbase, if_pos rfl, List.append_nil, List.map_append, List.map_cons,
    ended_append_render, List.map_map]
  congr 2
  exact List.map_congr_left fun other _ => ended_append_render [] other

/-! ## The line that is continued -/

theorem trim_append_render_ne_nil (base : List Char) (record : AuditRecord) :
    Text.trim (base ++ record.render.toList) ≠ [] := by
  obtain ⟨body, hbody, -⟩ := record.render_shape
  rw [ne_eq, Text.trim_eq_nil_iff]
  intro hall
  have hbrace : Text.isBlank '\x7b' = true := hall _ (by simp [hbody])
  exact absurd hbrace (by decide)

/-- A record is read behind blanks. -/
theorem parse?_append_render (hreadable : record.Readable) (hbase : base.all Json.isSpace) :
    AuditRecord.parse? (String.ofList (base ++ record.render.toList)) = some record := by
  have hstart : Json.skipSpaces (String.ofList (base ++ record.render.toList)).toList =
      record.toJson.spell .compact 0 := by
    have hspell := Json.skipSpaces_spell .compact 0 record.toJson []
    rw [List.append_nil] at hspell
    rw [String.toList_ofList, Json.skipSpaces_of_blank (List.all_eq_true.mp hbase),
      AuditRecord.render, Json.toList_render, hspell]
  rw [AuditRecord.parse?,
    Json.read?_of_skipSpaces hstart hreadable.numbersReadBack_toJson hreadable.depth,
    Option.bind_some, hreadable.ofDraft?_toJson]

/-- A record is not read behind anything else that is read, or passed over, as a line. -/
theorem parse?_append_render_eq_none (record : AuditRecord) (hbase : ¬base.all Json.isSpace)
    (hline : Text.trim base = [] ∨ ∃ other, AuditRecord.parse? (String.ofList base) = some other) :
    AuditRecord.parse? (String.ofList (base ++ record.render.toList)) = none := by
  have hread : Draft.read? (String.ofList (base ++ record.render.toList)) = none := by
    rcases hline with hblank | ⟨other, hother⟩
    · exact Draft.read?_eq_none_of_blank (Text.trim_eq_nil_iff.mp hblank) hbase _
    · obtain ⟨draft, hdraft, -⟩ := Option.bind_eq_some_iff.mp hother
      obtain ⟨body, hbody, -⟩ := record.render_shape
      rw [hbody]
      exact Draft.read?_append_brace hdraft _
  rw [AuditRecord.parse?, hread, Option.bind_none]

/-- A line that is read alone is blank or holds the only record that is added. -/
theorem readLines_singleton_cases (h : readLines digest ledger number [base] = .ok later) :
    Text.trim base = [] ∧ later = ledger ∨
      Text.trim base ≠ [] ∧ ∃ other, AuditRecord.parse? (String.ofList base) = some other := by
  rw [readLines] at h
  split at h
  next hblank =>
      cases h
      exact Or.inl ⟨hblank, rfl⟩
  next hsolid =>
      split at h
      next => exact absurd h (by simp)
      next other hother => exact Or.inr ⟨hsolid, other, hother⟩

/-! ## Reading the file again -/

/-- A file is read up to its unfinished line, and this line is blank or holds one more record. -/
theorem readLines_unfinished {text : String} (hopen : parse digest text = .ok ledger)
    {before : List (List Char)}
    (hsplit : text.toList.splitOn '\n' = before ++ [unfinished text.toList]) :
    ∃ middle, readLines digest empty 1 (before.map ended) = .ok middle ∧
      (Text.trim (unfinished text.toList) = [] ∧ middle = ledger ∨
        Text.trim (unfinished text.toList) ≠ [] ∧
          ∃ other, AuditRecord.parse? (String.ofList (unfinished text.toList)) = some other) := by
  rw [parse, linesOf_of_splitOn hsplit, readLines_append] at hopen
  cases hmiddle : readLines digest empty 1 (before.map ended) with
  | error damage =>
      rw [hmiddle] at hopen
      exact absurd hopen (by simp [Except.bind])
  | ok middle =>
      rw [hmiddle] at hopen
      refine ⟨middle, rfl, ?_⟩
      by_cases hnone : unfinished text.toList = []
      · rw [if_pos hnone] at hopen
        cases hopen
        exact Or.inl ⟨by rw [hnone]; rfl, rfl⟩
      · rw [if_neg hnone] at hopen
        exact (readLines_singleton_cases hopen).imp_left fun h => ⟨h.1, h.2.symm⟩

/-- Records that continue a log are read from the longer file, if nothing but blanks stands in the
unfinished line.  Otherwise that line cannot be read any more. -/
theorem parse_append_fileText {text longer : String} {rest : List AuditRecord}
    (hopen : parse digest text = .ok ledger) (hchained : later.Chained digest)
    (hlater : later.records = ledger.records ++ record :: rest)
    (hreadable : ∀ other ∈ record :: rest, other.Readable)
    (hlonger : longer.toList = text.toList ++ fileText ⟨record :: rest⟩) :
    parse digest longer =
      if (unfinished text.toList).all Json.isSpace then .ok later
      else .error (.unreadableLine (text.toList.splitOn '\n').length) := by
  obtain ⟨before, hsplit, hlines⟩ := linesOf_append_fileText text.toList record rest
  obtain ⟨middle, hmiddle, hline⟩ := readLines_unfinished hopen hsplit
  have hnumber : (text.toList.splitOn '\n').length = 1 + (before.map ended).length := by
    rw [hsplit, List.length_append, List.length_map, List.length_singleton, Nat.add_comm]
  have hblank := trim_append_render_ne_nil (unfinished text.toList) record
  rw [parse, hlonger, hlines, readLines_append, hmiddle, hnumber, Except.bind, readLines,
    if_neg hblank]
  split_ifs with hspaces
  · -- nothing was read from the unfinished line, so the new record follows on the old ones
    have hpassed : Text.trim (unfinished text.toList) = [] :=
      Text.trim_eq_nil_iff.mpr fun c hc => Json.isBlank_of_isSpace (List.all_eq_true.mp hspaces c hc)
    have hkept : middle = ledger := hline.elim And.right fun hread => absurd hpassed hread.1
    subst hkept
    rw [parse?_append_render (hreadable record List.mem_cons_self) hspaces]
    obtain ⟨hprevious, hsealed⟩ := hchained middle.records record rest hlater
    simp only
    rw [if_pos ⟨hprevious, hsealed⟩]
    exact readLines_render hchained
      (fun other hother => hreadable other (List.mem_cons_of_mem _ hother)) (by simp [hlater]) _
  · rw [parse?_append_render_eq_none record hspaces (hline.imp And.left And.right)]

end Ledger

/-- The change that a record tells. -/
def AuditRecord.entry (record : AuditRecord) : Entry :=
  ⟨record.action, record.params, record.time⟩

/-- A record holds its parameters, and nothing that lies deeper. -/
theorem AuditRecord.depth_toJson (record : AuditRecord) :
    record.toJson.depth = record.params.depth + 1 := by
  cases hprevious : record.previous <;>
    simp [toJson, hprevious, Json.depth, Json.depthOfEntries]

/-- A change that can be read back: its parameters and its time can, and it does not nest too deeply. -/
structure Entry.Readable (entry : Entry) : Prop where
  keys : entry.params.HasDistinctKeys
  numbers : entry.params.NumbersReadBack
  time : Timestamp.parse? (entry.time.render "Z") = some entry.time
  depth : entry.params.depth < Json.documentDepth

/-- Whether a record can be read back depends on its change only. -/
theorem Entry.Readable.record {record : AuditRecord} (h : record.entry.Readable) : record.Readable where
  keys := h.keys
  numbers := h.numbers
  time := h.time
  depth := by
    rw [AuditRecord.depth_toJson]
    exact h.depth

namespace Project

variable {project : Project} {digest : String → String} {entry : Entry} {entries : List Entry}
  {ledger later : Ledger} {files after : Directory}

theorem restoreLedger_eq (project : Project) (digest : String → String) (files : Directory) :
    project.restoreLedger digest files = Ledger.parse digest (project.logText files) := by
  rw [restoreLedger, logText]
  cases files.read? project.logFile with
  | none => rfl
  | some text => rfl

/-- One step adds a record to the log and its line to the file. -/
theorem appendEntry_ok (h : project.appendEntry digest entry ledger files = .ok (later, after)) :
    later = ledger.push (ledger.nextRecord digest entry.action entry.params entry.time) ∧
      (project.logText after).toList = (project.logText files).toList ++
        Ledger.fileText ⟨[ledger.nextRecord digest entry.action entry.params entry.time]⟩ := by
  rw [appendEntry] at h
  cases hwritten : files.append project.logFile
      ((ledger.nextRecord digest entry.action entry.params entry.time).render ++ "\n") with
  | error error =>
      rw [hwritten] at h
      exact absurd h (by simp [Except.map])
  | ok written =>
      rw [hwritten] at h
      cases h
      obtain ⟨file, hfile, rfl⟩ := Directory.write_eq_ok.mp hwritten
      refine ⟨rfl, ?_⟩
      simp [logText, Directory.read?, hfile, NameMap.get?_insert, Ledger.fileText]

/-- Any number of steps add the records of the changes, in order. -/
theorem appendAll_ok (h : project.appendAll digest entries ledger files = .ok (later, after)) :
    ∃ added, later.records = ledger.records ++ added ∧ added.map AuditRecord.entry = entries ∧
      (project.logText after).toList = (project.logText files).toList ++ Ledger.fileText ⟨added⟩ ∧
      (ledger.Chained digest → later.Chained digest) := by
  induction entries generalizing ledger files with
  | nil =>
      cases h
      exact ⟨[], by simp, rfl, by simp [Ledger.fileText], id⟩
  | cons entry rest ih =>
      rw [appendAll, bind_eq_ok] at h
      obtain ⟨⟨pushed, written⟩, hfirst, hrest⟩ := h
      obtain ⟨rfl, htext⟩ := appendEntry_ok hfirst
      obtain ⟨added, hrecords, hentries, htexts, hchained⟩ := ih hrest
      let record := ledger.nextRecord digest entry.action entry.params entry.time
      refine ⟨record :: added, ?_, ?_, ?_, fun h => ?_⟩
      · rw [hrecords, Ledger.push, List.append_assoc, List.singleton_append]
      · rw [List.map_cons, hentries]
        rfl
      · rw [htexts, htext, List.append_assoc]
        simp [Ledger.fileText, record]
      · exact hchained (h.push_nextRecord entry.action entry.params entry.time)

/-- After changes were added to a log that was opened, its file holds the records that were there and
those of the changes; opening it again gives all of them back, or fails at the line that was unfinished
and not blank.  The changes are taken to be readable. -/
theorem restoreLedger_of_appendAll (hopen : project.restoreLedger digest files = .ok ledger)
    (happend : project.appendAll digest entries ledger files = .ok (later, after))
    (hreadable : ∀ entry ∈ entries, entry.Readable) :
    (∃ added, later.records = ledger.records ++ added ∧ added.map AuditRecord.entry = entries) ∧
      project.restoreLedger digest after =
        if entries = [] ∨ (Ledger.unfinished (project.logText files).toList).all Json.isSpace then
          .ok later
        else .error (.unreadableLine ((project.logText files).toList.splitOn '\n').length) := by
  obtain ⟨added, hrecords, hentries, htext, hchained⟩ := appendAll_ok happend
  refine ⟨⟨added, hrecords, hentries⟩, ?_⟩
  have hadded : ∀ record ∈ added, record.Readable := fun record hrecord =>
    (hreadable record.entry (by rw [← hentries]; exact List.mem_map_of_mem hrecord)).record
  rw [restoreLedger_eq] at hopen ⊢
  cases added with
  | nil =>
      have hsame : project.logText after = project.logText files := by
        rw [← String.toList_inj, htext]
        simp [Ledger.fileText]
      have hlater : later = ledger := by
        obtain ⟨records⟩ := later
        exact congrArg Ledger.mk (hrecords.trans (List.append_nil _))
      have hnone : entries = [] := hentries.symm
      rw [hsame, hopen, hlater, if_pos (Or.inl hnone)]
  | cons record rest =>
      have hne : entries ≠ [] := by
        rw [← hentries]
        exact List.cons_ne_nil _ _
      have hlater := hchained (Ledger.chained_of_readLines (Ledger.chained_empty digest) hopen)
      rw [Ledger.parse_append_fileText hopen hlater hrecords hadded htext]
      simp [hne]

/-- A change is added to a file whose only record is not followed by a line feed.  The file could be
read before, and cannot be read any more. -/
theorem restoreLedger_of_unfinished_record :
    let digest := Blake3.digestText
    let project : Project := ⟨"", "demo"⟩
    let record := AuditRecord.make digest none "note" (.object []) ⟨0, 0⟩
    let files : Directory := NameMap.empty.insert "demo.changelog.jsonl" record.render
    let entry : Entry := ⟨"add_struct", .object [("name", .string "Struct1")], ⟨0, 0⟩⟩
    ∃ later after, project.restoreLedger digest files = .ok ⟨[record]⟩ ∧
      project.appendAll digest [entry] ⟨[record]⟩ files = .ok (later, after) ∧
      project.restoreLedger digest after = .error (.unreadableLine 1) := by
  intro digest project record files entry
  have htime : Timestamp.parse? ((⟨0, 0⟩ : Timestamp).render "Z") = some ⟨0, 0⟩ := by
    decide +kernel
  have hnote : record.Readable := Entry.Readable.record
    ⟨by simp [record, AuditRecord.make, AuditRecord.entry, Entries.keys],
      by simp [record, AuditRecord.make, AuditRecord.entry], htime,
      Nat.le_of_ble_eq_true rfl⟩
  have hchained : Ledger.Chained digest ⟨[record]⟩ :=
    (Ledger.chained_empty digest).push_nextRecord "note" (.object []) ⟨0, 0⟩
  -- the digest matters no more, and is not to be computed
  clear_value record digest
  have hfile : Directory.fileAt? project.logFile = some "demo.changelog.jsonl" := by decide
  have htext : project.logText files = record.render := by
    rw [logText, Directory.read?, hfile, Option.bind_some, NameMap.get?_insert, if_pos rfl,
      Option.getD_some]
  have hopen : project.restoreLedger digest files = .ok ⟨[record]⟩ := by
    rw [restoreLedger_eq]
    have hlast : (⟨[record]⟩ : Ledger).records = [] ++ [record] := rfl
    exact Ledger.parse_fileText_append_render hchained (by simpa using hnote) hlast
      (by rw [htext, Ledger.fileText, List.flatMap_nil, List.nil_append])
  obtain ⟨written, hwritten⟩ : ∃ written, project.appendEntry digest entry ⟨[record]⟩ files =
      .ok written := by
    rw [appendEntry, Directory.append, Directory.write, hfile]
    exact ⟨_, rfl⟩
  have happend : project.appendAll digest [entry] ⟨[record]⟩ files = .ok written := by
    rw [appendAll, hwritten]
    rfl
  obtain ⟨-, hread⟩ := restoreLedger_of_appendAll hopen happend (by
    simpa using ⟨by simp [entry, Entries.keys], by simp [entry], htime, Nat.le_of_ble_eq_true rfl⟩)
  refine ⟨written.1, written.2, hopen, happend, ?_⟩
  obtain ⟨body, hbody, hclean⟩ := record.render_shape
  have hsplit := List.splitOn_eq_singleton hclean
  have hsolid : ¬(Ledger.unfinished record.render.toList).all Json.isSpace := by
    rw [Ledger.unfinished, hsplit, hbody]
    simp [Json.isSpace]
  rw [hread, htext, if_neg (not_or.mpr ⟨List.cons_ne_nil _ _, hsolid⟩), hsplit,
    List.length_singleton]

end Project
end LiveSchema
