import LiveSchema.Digest.Blake3
import LiveSchema.Mutation.Basic
import LiveSchema.Proofs.Ledger.Reading

/-!
# What the superhash vouches for

The hash of a record covers the hash before it and the text of its change, one behind the other.  As all
hashes are equally long, the superhash of a log settles the texts of all changes.  It settles the changes
themselves only where the text tells where an action ends and its parameters begin: nothing marks these
places, so the digits of a number can belong to either side.
-/

namespace LiveSchema

/-- A change that is added to a log. -/
structure Entry where
  action : String
  params : Json
  time : Timestamp

namespace Entry

/-- What a change adds to the text that is hashed. -/
def text (entry : Entry) : String :=
  entry.action ++ entry.params.render ++ entry.time.render "+00:00"

/-- A change whose text tells its parts: the action has no opening brace, the parameters are an object,
and both parameters and time can be read back. -/
structure Separable (entry : Entry) : Prop where
  action : '\x7b' ∉ entry.action.toList
  params : ∃ entries, entry.params = .object entries
  keys : entry.params.HasDistinctKeys
  numbers : entry.params.NumbersReadBack
  time : Timestamp.parse? (entry.time.render "Z") = some entry.time

theorem toList_text (entry : Entry) :
    entry.text.toList = entry.action.toList ++
      (entry.params.spell .compact 0 ++ (entry.time.render "+00:00").toList) := by
  simp [text, Json.toList_render]

theorem brace_not_mem_action (mutation : Mutation) : '\x7b' ∉ mutation.action.toList := by
  cases mutation <;> simp [Mutation.action]

/-- What mutations log is separable, as far as numbers and times read back. -/
theorem separable_of_mutation (mutation : Mutation) {params : Entries} {time : Timestamp}
    (hkeys : (Json.object params).HasDistinctKeys)
    (hnumbers : (Json.object params).NumbersReadBack)
    (htime : Timestamp.parse? (time.render "Z") = some time) :
    Separable ⟨mutation.action, .object params, time⟩ where
  action := brace_not_mem_action mutation
  params := ⟨params, rfl⟩
  keys := hkeys
  numbers := hnumbers
  time := htime

/-- The mark of the zone is behind the rest of a timestamp. -/
theorem render_eq_of_render_eq {first second : Timestamp}
    (h : first.render "+00:00" = second.render "+00:00") : first.render "Z" = second.render "Z" := by
  have hsplit : ∀ time : Timestamp, ∃ body, ∀ zone, time.render zone = body ++ zone :=
    fun time => ⟨_, fun _ => rfl⟩
  obtain ⟨body, hbody⟩ := hsplit first
  obtain ⟨other, hother⟩ := hsplit second
  rw [hbody, hother, String.append_left_inj] at h
  rw [hbody, hother, h]

/-- What stands before the first opening brace is the action. -/
theorem append_brace_inj {first second left right : List Char} (hfirst : '\x7b' ∉ first)
    (hsecond : '\x7b' ∉ second) (h : first ++ '\x7b' :: left = second ++ '\x7b' :: right) :
    first = second ∧ left = right := by
  induction first generalizing second with
  | nil =>
      cases second with
      | nil => exact ⟨rfl, (List.cons.inj h).2⟩
      | cons c second => exact absurd ((List.cons.inj h).1 ▸ List.mem_cons_self) hsecond
  | cons c first ih =>
      cases second with
      | nil => exact absurd ((List.cons.inj h).1 ▸ List.mem_cons_self) hfirst
      | cons d second =>
          obtain ⟨rfl, hrest⟩ := List.cons.inj h
          obtain ⟨rfl, hsame⟩ := ih (fun hmem => hfirst (List.mem_cons_of_mem _ hmem))
            (fun hmem => hsecond (List.mem_cons_of_mem _ hmem)) hrest
          exact ⟨rfl, hsame⟩

/-- The reader finds the end of the parameters. -/
theorem Separable.readDraft?_params {entry : Entry} (h : entry.Separable) {depth : Nat}
    (hdepth : entry.params.depth ≤ depth) (rest : List Char) :
    Json.readDraft? (2 * (entry.params.spell .compact 0 ++ rest).length + 1) depth
        (entry.params.spell .compact 0 ++ rest) = some (Draft.ofJson entry.params, rest) := by
  obtain ⟨entries, hentries⟩ := h.params
  have hnumbers := h.numbers
  rw [hentries] at hdepth hnumbers ⊢
  refine Json.readDraft?_object (fun held hheld => ?_) (Json.skipSpaces_spell _ _ _ _)
    (Nat.lt_succ_self _) hdepth
  exact Json.isRead _ (hnumbers.inner (List.mem_map_of_mem hheld))

/-- Changes whose texts tell their parts are told apart by their texts. -/
theorem Separable.eq_of_text_eq {first second : Entry} (hfirst : first.Separable)
    (hsecond : second.Separable) (h : first.text = second.text) : first = second := by
  have hbrace : ∀ entry : Entry, entry.Separable →
      ∃ more, entry.params.spell .compact 0 = '\x7b' :: more := by
    intro entry hentry
    obtain ⟨entries, hentries⟩ := hentry.params
    rw [hentries]
    cases entries with
    | nil => exact ⟨_, rfl⟩
    | cons held rest => exact ⟨_, rfl⟩
  obtain ⟨left, hleft⟩ := hbrace first hfirst
  obtain ⟨right, hright⟩ := hbrace second hsecond
  have htexts := congrArg String.toList h
  rw [toList_text, toList_text] at htexts
  have hparts : first.action.toList = second.action.toList ∧
      first.params.spell .compact 0 ++ (first.time.render "+00:00").toList =
        second.params.spell .compact 0 ++ (second.time.render "+00:00").toList := by
    rw [hleft, hright] at htexts ⊢
    exact (append_brace_inj hfirst.action hsecond.action htexts).imp_right
      fun hsame => congrArg ('\x7b' :: ·) hsame
  obtain ⟨haction, hbehind⟩ := hparts
  -- both readings of what stands behind the action are one
  have hread := hfirst.readDraft?_params (le_max_left _ second.params.depth)
    (first.time.render "+00:00").toList
  rw [hbehind, hsecond.readDraft?_params (le_max_right first.params.depth _), Option.some.injEq,
    Prod.mk.injEq] at hread
  obtain ⟨hdraft, htime⟩ := hread
  have hparams : some first.params = some second.params := by
    rw [← Draft.toJson?_ofJson hfirst.keys, ← Draft.toJson?_ofJson hsecond.keys, hdraft]
  have htimes : some first.time = some second.time := by
    rw [← hfirst.time, ← hsecond.time,
      render_eq_of_render_eq (String.toList_inj.mp htime.symm)]
  obtain ⟨action, params, time⟩ := first
  obtain ⟨other, held, moment⟩ := second
  rw [Entry.mk.injEq]
  exact ⟨String.toList_inj.mp haction, Option.some.inj hparams, Option.some.inj htimes⟩

end Entry

namespace Ledger

variable {digest : String → String} {first second : List Entry} {entry : Entry}

/-- The log of changes that were added to an empty one. -/
def ofEntries (digest : String → String) (entries : List Entry) : Ledger :=
  entries.foldl (fun ledger entry => ledger.append digest entry.action entry.params entry.time) empty

/-- The texts that the hashes of a log were taken of. -/
def hashedTexts (ledger : Ledger) : List String :=
  ledger.records.map fun record =>
    AuditRecord.chainText record.previous record.action record.params record.time

/-- No two different texts behind the hashes of two logs have the same digest. -/
def NoCollision (digest : String → String) (first second : Ledger) : Prop :=
  ∀ a ∈ first.hashedTexts, ∀ b ∈ second.hashedTexts, digest a = digest b → a = b

theorem ofEntries_concat (digest : String → String) (entries : List Entry) (entry : Entry) :
    ofEntries digest (entries ++ [entry]) =
      (ofEntries digest entries).append digest entry.action entry.params entry.time := by
  simp [ofEntries]

theorem length_records_ofEntries (digest : String → String) (entries : List Entry) :
    (ofEntries digest entries).records.length = entries.length := by
  induction entries using List.reverseRecOn with
  | nil => rfl
  | append_singleton entries entry ih => simp [ofEntries_concat, append, push, ih]

theorem chainText_eq (previous : Option String) (entry : Entry) :
    AuditRecord.chainText previous entry.action entry.params entry.time =
      previous.getD "" ++ entry.text := by
  simp [AuditRecord.chainText, Entry.text, String.append_assoc]

theorem superhash?_ofEntries_concat (digest : String → String) (entries : List Entry)
    (entry : Entry) : (ofEntries digest (entries ++ [entry])).superhash? =
      some (digest ((ofEntries digest entries).superhash?.getD "" ++ entry.text)) := by
  rw [ofEntries_concat, append, nextRecord, AuditRecord.make, chainText_eq, superhash?, push,
    List.getLast?_concat, Option.map_some]

theorem hashedTexts_ofEntries_concat (digest : String → String) (entries : List Entry)
    (entry : Entry) : (ofEntries digest (entries ++ [entry])).hashedTexts =
      (ofEntries digest entries).hashedTexts ++
        [(ofEntries digest entries).superhash?.getD "" ++ entry.text] := by
  rw [ofEntries_concat, append, nextRecord, AuditRecord.make, hashedTexts, push, List.map_append,
    List.map_singleton, chainText_eq]
  rfl

theorem NoCollision.init {other : Entry}
    (h : NoCollision digest (ofEntries digest (first ++ [entry]))
      (ofEntries digest (second ++ [other]))) :
    NoCollision digest (ofEntries digest first) (ofEntries digest second) := by
  intro a ha b hb
  rw [NoCollision, hashedTexts_ofEntries_concat, hashedTexts_ofEntries_concat] at h
  exact h a (List.mem_append_left _ ha) b (List.mem_append_left _ hb)

theorem append_inj_of_length_eq {left right more other : String}
    (hlength : left.length = right.length) (h : left ++ more = right ++ other) :
    left = right ∧ more = other := by
  have hlists := congrArg String.toList h
  rw [String.toList_append, String.toList_append] at hlists
  have hparts := List.append_inj hlists
    (by rw [String.length_toList, String.length_toList, hlength])
  exact ⟨String.toList_inj.mp hparts.1, String.toList_inj.mp hparts.2⟩

/-- The superhashes of two logs of the same length are equally long, or neither log has one. -/
theorem superhash?_of_length_eq (hwidth : ∀ a b, (digest a).length = (digest b).length)
    (hlength : first.length = second.length) :
    ((ofEntries digest first).superhash?.getD "").length =
        ((ofEntries digest second).superhash?.getD "").length ∧
      ((ofEntries digest first).superhash?.getD "" =
        (ofEntries digest second).superhash?.getD "" →
          (ofEntries digest first).superhash? = (ofEntries digest second).superhash?) := by
  rcases List.eq_nil_or_concat' first with rfl | ⟨before, last, rfl⟩
  · obtain rfl := List.length_eq_zero_iff.mp hlength.symm
    exact ⟨rfl, fun _ => rfl⟩
  · rcases List.eq_nil_or_concat' second with rfl | ⟨other, end', rfl⟩
    · simp at hlength
    · rw [superhash?_ofEntries_concat, superhash?_ofEntries_concat]
      exact ⟨hwidth _ _, fun hsame => congrArg some hsame⟩

/-- Without collisions, the superhash settles the texts of all changes, and nothing more. -/
theorem superhash?_ofEntries_eq_iff (hwidth : ∀ a b, (digest a).length = (digest b).length)
    (hlength : first.length = second.length)
    (hcollision : NoCollision digest (ofEntries digest first) (ofEntries digest second)) :
    (ofEntries digest first).superhash? = (ofEntries digest second).superhash? ↔
      first.map Entry.text = second.map Entry.text := by
  induction first using List.reverseRecOn generalizing second with
  | nil =>
      obtain rfl := List.length_eq_zero_iff.mp hlength.symm
      simp
  | append_singleton first entry ih =>
      rcases List.eq_nil_or_concat' second with rfl | ⟨second, other, rfl⟩
      · simp at hlength
      have hshorter : first.length = second.length := by simpa using hlength
      obtain ⟨hequal, hsettled⟩ := superhash?_of_length_eq hwidth hshorter
      have hmem := hcollision
      rw [NoCollision, hashedTexts_ofEntries_concat, hashedTexts_ofEntries_concat] at hmem
      have hlast := hmem _ (List.mem_append_right _ List.mem_cons_self) _
        (List.mem_append_right _ List.mem_cons_self)
      calc (ofEntries digest (first ++ [entry])).superhash? =
            (ofEntries digest (second ++ [other])).superhash?
        _ ↔ (ofEntries digest first).superhash?.getD "" ++ entry.text =
              (ofEntries digest second).superhash?.getD "" ++ other.text := by
            rw [superhash?_ofEntries_concat, superhash?_ofEntries_concat, Option.some.injEq]
            exact ⟨hlast, fun hsame => congrArg digest hsame⟩
        _ ↔ (ofEntries digest first).superhash? = (ofEntries digest second).superhash? ∧
              entry.text = other.text := by
            constructor
            · intro hsame
              obtain ⟨hbefore, htext⟩ := append_inj_of_length_eq hequal hsame
              exact ⟨hsettled hbefore, htext⟩
            · rintro ⟨hbefore, htext⟩
              rw [hbefore, htext]
        _ ↔ first.map Entry.text = second.map Entry.text ∧ entry.text = other.text :=
            and_congr_left fun _ => ih hshorter hcollision.init
        _ ↔ (first ++ [entry]).map Entry.text = (second ++ [other]).map Entry.text := by
            rw [List.map_append, List.map_append]
            exact ⟨fun ⟨hbefore, hone⟩ => by simp [hbefore, hone],
              fun hsame => by simpa using List.append_inj' hsame (by simp)⟩

/-- Changes whose texts tell their parts are the same if their texts are. -/
theorem eq_of_map_text_eq (hfirst : ∀ entry ∈ first, entry.Separable)
    (hsecond : ∀ entry ∈ second, entry.Separable)
    (h : first.map Entry.text = second.map Entry.text) : first = second := by
  induction first generalizing second with
  | nil => exact (List.map_eq_nil_iff.mp h.symm).symm
  | cons entry first ih =>
      cases second with
      | nil => exact absurd h (by simp)
      | cons other second =>
          obtain ⟨hentry, hrest⟩ := List.cons.inj h
          rw [(hfirst entry List.mem_cons_self).eq_of_text_eq (hsecond other List.mem_cons_self)
              hentry,
            ih (fun held hheld => hfirst held (List.mem_cons_of_mem _ hheld))
              (fun held hheld => hsecond held (List.mem_cons_of_mem _ hheld)) hrest]

/-- Two logs of the same length have the same superhash just if the texts of their changes are the same,
one by one.  If all of these texts tell their parts, then the changes are the same.  The digests of all
texts are taken to be equally long, and no two texts hashed in the two logs to collide. -/
theorem superhash?_eq_iff (hwidth : ∀ a b, (digest a).length = (digest b).length)
    (hlength : (ofEntries digest first).records.length = (ofEntries digest second).records.length)
    (hcollision : NoCollision digest (ofEntries digest first) (ofEntries digest second)) :
    ((ofEntries digest first).superhash? = (ofEntries digest second).superhash? ↔
        first.map Entry.text = second.map Entry.text) ∧
      ((∀ entry ∈ first, entry.Separable) → (∀ entry ∈ second, entry.Separable) →
        ((ofEntries digest first).superhash? = (ofEntries digest second).superhash? ↔
          first = second)) := by
  rw [length_records_ofEntries, length_records_ofEntries] at hlength
  have htexts := superhash?_ofEntries_eq_iff hwidth hlength hcollision
  refine ⟨htexts, fun hfirst hsecond => htexts.trans ⟨eq_of_map_text_eq hfirst hsecond, ?_⟩⟩
  exact fun hsame => congrArg (List.map Entry.text) hsame

/-- A digit may change sides between an action and a number behind it: whatever the digest, and whatever
log these changes are added to, they lead to the same superhash. -/
theorem superhash?_of_moved_digit (digest : String → String) (before : List Entry)
    (time : Timestamp) :
    (ofEntries digest (before ++ [⟨"a1", .ofNat 2, time⟩])).superhash? =
      (ofEntries digest (before ++ [⟨"a", .ofNat 12, time⟩])).superhash? := by
  have hparts : "a1" ++ (Json.ofNat 2).render = "a" ++ (Json.ofNat 12).render := by decide +kernel
  have htext : Entry.text ⟨"a1", .ofNat 2, time⟩ = Entry.text ⟨"a", .ofNat 12, time⟩ :=
    congrArg (· ++ time.render "+00:00") hparts
  rw [superhash?_ofEntries_concat, superhash?_ofEntries_concat, htext]

end Ledger

/-! ## The digest in use -/

namespace Blake3

theorem length_wordHex (word : UInt32) : (wordHex word).length = 8 := by
  simp [wordHex, byteHex]

/-- All digests have 64 digits. -/
theorem length_digestText (text : String) : (digestText text).length = 64 := by
  simp [digestText, digest, String.length_ofList, List.length_flatMap, length_wordHex]

end Blake3

namespace Ledger

/-- The superhashes of two logs that tell of different structs, with the digest in use. -/
theorem superhash?_of_two_structs :
    let first : List Entry := [⟨"add_struct", .object [("name", .string "Struct1")], ⟨0, 0⟩⟩]
    let second : List Entry := [⟨"add_struct", .object [("name", .string "Struct2")], ⟨0, 0⟩⟩]
    (ofEntries Blake3.digestText first).superhash? ≠
      (ofEntries Blake3.digestText second).superhash? := by
  intro first second
  have hwidth : ∀ a b, (Blake3.digestText a).length = (Blake3.digestText b).length := fun a b => by
    rw [Blake3.length_digestText, Blake3.length_digestText]
  have hcollision : NoCollision Blake3.digestText (ofEntries Blake3.digestText first)
      (ofEntries Blake3.digestText second) := by
    unfold NoCollision
    decide +kernel
  have hseparable : ∀ name, Entry.Separable ⟨"add_struct", .object [("name", .string name)], ⟨0, 0⟩⟩ :=
    fun name => Entry.separable_of_mutation .addStruct (by simp [Entries.keys]) (by simp)
      (by decide +kernel)
  have hdifferent : first ≠ second := by simp [first, second]
  have hlength : (ofEntries Blake3.digestText first).records.length =
      (ofEntries Blake3.digestText second).records.length := by
    rw [length_records_ofEntries, length_records_ofEntries]
    rfl
  obtain ⟨-, hentries⟩ :=
    @superhash?_eq_iff Blake3.digestText first second hwidth hlength hcollision
  rw [Ne, hentries (List.forall_mem_singleton.mpr (hseparable _))
    (List.forall_mem_singleton.mpr (hseparable _))]
  exact hdifferent

end Ledger
end LiveSchema
