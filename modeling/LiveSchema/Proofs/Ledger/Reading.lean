import LiveSchema.Ledger.Basic
import LiveSchema.Proofs.Document.Store
import LiveSchema.Proofs.Text

/-!
# Reading back the change log

The file of the log holds a line for each record, and reading it gives the log back if the records can
be read back.  The chain needs no assumption about the digest: every record was made with the hash of
the one before it.
-/

namespace LiveSchema

/-! ## Lines -/

namespace Json

theorem newline_ne_digitChar : ∀ d < 16, '\n' ≠ d.digitChar := by
  decide

theorem not_mem_newline_escape (c : Char) : '\n' ∉ (escape c).toList := by
  have hhex : ∀ n, '\n' ∉ Nat.toDigits 16 n := by
    intro n hmem
    obtain ⟨d, hd, hsame⟩ := Text.mem_toHex hmem
    exact absurd hsame (newline_ne_digitChar d hd)
  unfold escape
  split_ifs with hquote hslash hfeed
  all_goals first | decide | skip
  · simpa using hhex c.toNat
  · simpa using hhex c.toNat
  · simpa using Ne.symm hfeed

theorem not_mem_newline_quote (text : String) : '\n' ∉ (quote text).toList := by
  have hescaped : '\n' ∉ escaped text.toList := by
    intro hmem
    obtain ⟨c, -, hc⟩ := List.mem_flatMap.mp hmem
    exact not_mem_newline_escape c hc
  rw [toList_quote]
  simpa using hescaped

theorem not_mem_newline_number (n : Number) : '\n' ∉ n.render.toList := by
  obtain ⟨negative, magnitude, htext, hmagnitude⟩ := exists_magnitude n
  have hclean : '\n' ∉ magnitude := fun hmem =>
    absurd (hmagnitude.characters _ hmem) (by decide)
  rw [htext]
  cases negative <;> simpa [signed] using hclean

theorem not_mem_newline_spellItems {items : List Json} {level : Nat}
    (h : ∀ item ∈ items, '\n' ∉ item.spell .compact level) :
    '\n' ∉ spellItems .compact level items := by
  induction items with
  | nil => simp [spellItems]
  | cons item rest ih =>
      have hitem := h item List.mem_cons_self
      have hrest := ih fun other hother => h other (List.mem_cons_of_mem _ hother)
      simp [spellItems, hitem, hrest]

theorem not_mem_newline_spellEntries {entries : List (String × Json)} {level : Nat}
    (h : ∀ entry ∈ entries, '\n' ∉ entry.2.spell .compact level) :
    '\n' ∉ spellEntries .compact level entries := by
  induction entries with
  | nil => simp [spellEntries]
  | cons entry rest ih =>
      obtain ⟨key, value⟩ := entry
      have hvalue := h (key, value) List.mem_cons_self
      have hrest := ih fun other hother => h other (List.mem_cons_of_mem _ hother)
      simp [spellEntries, not_mem_newline_quote, hvalue, hrest]

/-- The compact form of a value stays in its line. -/
theorem not_mem_newline_spell (value : Json) (level : Nat) :
    '\n' ∉ value.spell .compact level := by
  induction value using inner_induction generalizing level with
  | step value ih =>
      cases value with
      | array items =>
          cases items with
          | nil => simp [spell]
          | cons item rest =>
              have hitem := ih item List.mem_cons_self (level + 1)
              have hrest := not_mem_newline_spellItems fun other hother =>
                ih other (List.mem_cons_of_mem _ hother) (level + 1)
              simp [spell, hitem, hrest]
      | object entries =>
          cases entries with
          | nil => simp [spell]
          | cons entry rest =>
              obtain ⟨key, held⟩ := entry
              have hheld := ih held List.mem_cons_self (level + 1)
              have hrest := not_mem_newline_spellEntries fun other hother =>
                ih other.2 (List.mem_cons_of_mem _ (List.mem_map_of_mem hother)) (level + 1)
              simp [spell, not_mem_newline_quote, hheld, hrest]
      | null => simp [spell, renderScalar]
      | bool value => cases value <;> simp [spell, renderScalar]
      | number n => simpa [spell, renderScalar] using not_mem_newline_number n
      | string text => simpa [spell, renderScalar] using not_mem_newline_quote text

end Json

namespace AuditRecord

/-- The line of a record is that of an object: nothing in it ends the line, and nothing at its ends is
blank. -/
theorem render_shape (record : AuditRecord) :
    ∃ body, record.render.toList = '\x7b' :: (body ++ ['\x7d']) ∧ '\n' ∉ record.render.toList := by
  have hclean := Json.not_mem_newline_spell record.toJson 0
  rw [← Json.toList_render] at hclean
  obtain ⟨entry, entries, hentries⟩ : ∃ entry entries, record.toJson = .object (entry :: entries) :=
    ⟨_, _, rfl⟩
  obtain ⟨body, hbody⟩ : ∃ body, (Json.object (entry :: entries)).spell .compact 0 =
      '\x7b' :: (body ++ ['\x7d']) := by
    obtain ⟨key, value⟩ := entry
    exact ⟨_, rfl⟩
  refine ⟨body, ?_, hclean⟩
  rw [render, Json.toList_render, hentries, hbody]

end AuditRecord

namespace Ledger

/-- The lines of the records, as the file of the log holds them. -/
def fileText (ledger : Ledger) : List Char :=
  ledger.records.flatMap fun record => record.render.toList ++ ['\n']

theorem fileText_push (ledger : Ledger) (record : AuditRecord) :
    (ledger.push record).fileText = ledger.fileText ++ (record.render.toList ++ ['\n']) := by
  simp [fileText, push]

theorem splitOn_fileText_append (records : List AuditRecord) (more : List Char) :
    (fileText ⟨records⟩ ++ more).splitOn '\n' =
      records.map (fun record => record.render.toList) ++ more.splitOn '\n' := by
  induction records with
  | nil => rfl
  | cons record rest ih =>
      obtain ⟨body, -, hclean⟩ := record.render_shape
      have hsplit : fileText ⟨record :: rest⟩ ++ more =
          record.render.toList ++ '\n' :: (fileText ⟨rest⟩ ++ more) := by
        simp [fileText]
      rw [hsplit, List.splitOn_append_cons_self_of_not_mem hclean, ih]
      rfl

theorem splitOn_fileText (records : List AuditRecord) :
    (fileText ⟨records⟩).splitOn '\n' = records.map (fun record => record.render.toList) ++ [[]] := by
  simpa using splitOn_fileText_append records []

/-- A line without its line feed, and without a carriage return before that. -/
def ended (line : List Char) : List Char :=
  if line.getLast? = some '\r' then line.dropLast else line

theorem ended_append_render (base : List Char) (record : AuditRecord) :
    ended (base ++ record.render.toList) = base ++ record.render.toList := by
  obtain ⟨body, hbody, -⟩ := record.render_shape
  rw [ended, if_neg]
  rw [hbody, ← List.cons_append, ← List.append_assoc, List.getLast?_concat]
  decide

/-- All lines but the last are ended, and the last counts if there is something in it. -/
theorem linesOf_of_splitOn {text last : List Char} {before : List (List Char)}
    (h : text.splitOn '\n' = before ++ [last]) :
    linesOf text = before.map ended ++ if last = [] then [] else [last] := by
  unfold linesOf
  simp only [h, List.dropLast_concat, List.getLast?_concat]
  cases last with
  | nil => simp [ended]
  | cons c rest => simp [ended]

theorem linesOf_fileText (ledger : Ledger) :
    linesOf ledger.fileText = ledger.records.map fun record => record.render.toList := by
  rw [linesOf_of_splitOn (splitOn_fileText ledger.records), if_pos rfl, List.append_nil,
    List.map_map]
  exact List.map_congr_left fun record _ => ended_append_render [] record

/-- The line of the last record need not be ended. -/
theorem linesOf_fileText_append_render (before : List AuditRecord) (last : AuditRecord) :
    linesOf (fileText ⟨before⟩ ++ last.render.toList) =
      (before ++ [last]).map fun record => record.render.toList := by
  obtain ⟨body, hbody, hclean⟩ := last.render_shape
  have hlast : last.render.toList ≠ [] := by simp [hbody]
  have hsplit := splitOn_fileText_append before last.render.toList
  rw [List.splitOn_eq_singleton hclean] at hsplit
  rw [linesOf_of_splitOn hsplit, if_neg hlast, List.map_map, List.map_append, List.map_singleton]
  congr 1
  exact List.map_congr_left fun record _ => ended_append_render [] record

/-! ## The chain -/

/-- Every record holds the hash of the one before it, and its own. -/
def Chained (digest : String → String) (ledger : Ledger) : Prop :=
  ∀ before record after, ledger.records = before ++ record :: after →
    record.previous = superhash? ⟨before⟩ ∧ record.isSealed digest = true

variable {digest : String → String} {ledger : Ledger}

theorem chained_empty (digest : String → String) : empty.Chained digest := by
  intro before record after h
  exact absurd h (by simp [empty])

/-- A record with its proper hashes keeps the chain. -/
theorem Chained.push {record : AuditRecord} (h : ledger.Chained digest)
    (hprevious : record.previous = ledger.superhash?) (hsealed : record.isSealed digest = true) :
    (ledger.push record).Chained digest := by
  intro before other after hsplit
  rcases List.eq_nil_or_concat after with rfl | ⟨rest, last, rfl⟩
  · obtain ⟨rfl, hrecord⟩ := List.append_inj' hsplit rfl
    obtain rfl := (List.cons.inj hrecord).1
    exact ⟨hprevious, hsealed⟩
  · rw [List.concat_eq_append, ← List.cons_append, ← List.append_assoc] at hsplit
    obtain ⟨hbefore, -⟩ := List.append_inj' hsplit rfl
    exact h before other rest hbefore

/-- A record that is made for the end of the log keeps the chain. -/
theorem Chained.push_nextRecord (h : ledger.Chained digest) (action : String) (params : Json)
    (time : Timestamp) :
    (ledger.push (ledger.nextRecord digest action params time)).Chained digest :=
  h.push rfl (by simp [nextRecord, AuditRecord.make, AuditRecord.isSealed])

/-- Lines are read in two parts. -/
theorem readLines_append (lines more : List (List Char)) (number : Nat) :
    readLines digest ledger number (lines ++ more) =
      (readLines digest ledger number lines).bind fun ledger =>
        readLines digest ledger (number + lines.length) more := by
  induction lines generalizing ledger number with
  | nil => rfl
  | cons line rest ih =>
      have hnumber : number + (line :: rest).length = number + 1 + rest.length := by
        rw [List.length_cons]
        omega
      rw [List.cons_append, readLines, readLines, hnumber]
      split
      next => exact ih (number + 1)
      next =>
          split
          next => rfl
          next =>
              split
              next => exact ih (number + 1)
              next => rfl

/-- What is read continues the chain. -/
theorem chained_of_readLines (h : ledger.Chained digest) {lines : List (List Char)} {number : Nat}
    {later : Ledger} (hread : readLines digest ledger number lines = .ok later) :
    later.Chained digest := by
  induction lines generalizing ledger number with
  | nil =>
      cases hread
      exact h
  | cons line rest ih =>
      rw [readLines] at hread
      split at hread
      next => exact ih h hread
      next =>
          split at hread
          next => exact absurd hread (by simp)
          next record hrecord =>
              split at hread
              next hlinked => exact ih (h.push hlinked.1 hlinked.2) hread
              next => exact absurd hread (by simp)

/-- Records that can be read back are read into the log one after the other. -/
theorem readLines_render (hchained : ledger.Chained digest) {before after : List AuditRecord}
    (hreadable : ∀ record ∈ after, record.Readable) (hsplit : ledger.records = before ++ after)
    (number : Nat) :
    readLines digest ⟨before⟩ number (after.map fun record => record.render.toList) =
      .ok ledger := by
  induction after generalizing before number with
  | nil =>
      rw [List.append_nil] at hsplit
      rw [List.map_nil, readLines, ← hsplit]
  | cons record rest ih =>
      obtain ⟨hprevious, hsealed⟩ := hchained before record rest hsplit
      obtain ⟨body, hbody, -⟩ := record.render_shape
      have hblank : Text.trim record.render.toList ≠ [] := by
        rw [hbody]
        exact Text.trim_ne_nil (by decide) _
      have hread := (hreadable record List.mem_cons_self).parse?_render
      have hrest := @ih (before ++ [record])
        (fun other hother => hreadable other (List.mem_cons_of_mem _ hother)) (by simp [hsplit])
        (number + 1)
      rw [List.map_cons, readLines, if_neg hblank, String.ofList_toList, hread]
      simp only
      rw [if_pos ⟨hprevious, hsealed⟩]
      exact hrest

/-- The log is read back from its file. -/
theorem parse_fileText (hchained : ledger.Chained digest)
    (hreadable : ∀ record ∈ ledger.records, record.Readable) {text : String}
    (htext : text.toList = ledger.fileText) : parse digest text = .ok ledger := by
  have hall : ledger.records = [] ++ ledger.records := rfl
  rw [parse, htext, linesOf_fileText]
  exact readLines_render hchained hreadable hall 1

/-- The log is also read back from its file if the last line is not ended. -/
theorem parse_fileText_append_render (hchained : ledger.Chained digest)
    (hreadable : ∀ record ∈ ledger.records, record.Readable) {before : List AuditRecord}
    {last : AuditRecord} (hsplit : ledger.records = before ++ [last]) {text : String}
    (htext : text.toList = fileText ⟨before⟩ ++ last.render.toList) :
    parse digest text = .ok ledger := by
  have hall : ledger.records = [] ++ ledger.records := rfl
  rw [parse, htext, linesOf_fileText_append_render, ← hsplit]
  exact readLines_render hchained hreadable hall 1

end Ledger
end LiveSchema
