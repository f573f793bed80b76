import LiveSchema.Proofs.Mutation.Conformance
import LiveSchema.Proofs.Mutation.Keys
import LiveSchema.Proofs.Project.StoreFiles
import LiveSchema.Proofs.Project.Types
import LiveSchema.Proofs.Reachable

/-!
# Databases that were opened

A store file may hold any value: nothing is asked of the values but that they can be read.  Where a
document repeats a key, the last value counts, so no object in a value that was read repeats a key.
Mutations keep it so.
-/

namespace LiveSchema

/-! ## Values -/

namespace Draft

open Json

theorem forall_itemsToJson? {items : List Draft} {done values : List Json}
    (hitems : ∀ item ∈ items, ∀ value, item.toJson? = some value → value.HasDistinctKeys)
    (hdone : ∀ value ∈ done, value.HasDistinctKeys) (h : itemsToJson? done items = some values) :
    ∀ value ∈ values, value.HasDistinctKeys := by
  induction items generalizing done with
  | nil =>
      rw [itemsToJson?, Option.some.injEq] at h
      exact fun value hvalue => hdone value (List.mem_reverse.mp (h ▸ hvalue))
  | cons item rest ih =>
      obtain ⟨hitem, hrest⟩ := List.forall_mem_cons.mp hitems
      rw [itemsToJson?] at h
      split at h
      next value hvalue => exact ih hrest (List.forall_mem_cons.mpr ⟨hitem value hvalue, hdone⟩) h
      next => exact absurd h (by simp)

theorem forall_entriesToJson? {drafts : List (String × Draft)} {done entries : Entries}
    (hdrafts : ∀ entry ∈ drafts, ∀ value, entry.2.toJson? = some value → value.HasDistinctKeys)
    (hdone : ∀ entry ∈ done, entry.2.HasDistinctKeys)
    (h : entriesToJson? done drafts = some entries) :
    ∀ entry ∈ entries, entry.2.HasDistinctKeys := by
  induction drafts generalizing done with
  | nil =>
      rw [entriesToJson?, Option.some.injEq] at h
      exact fun entry hentry => hdone entry (List.mem_reverse.mp (h ▸ hentry))
  | cons first rest ih =>
      obtain ⟨key, draft⟩ := first
      obtain ⟨hfirst, hrest⟩ := List.forall_mem_cons.mp hdrafts
      rw [entriesToJson?] at h
      split at h
      next value hvalue =>
          exact ih hrest (List.forall_mem_cons.mpr ⟨hfirst value hvalue, hdone⟩) h
      next => exact absurd h (by simp)

/-- No object in a value that was read repeats a key. -/
theorem hasDistinctKeys_of_toJson? {draft : Draft} {value : Json} (h : draft.toJson? = some value) :
    value.HasDistinctKeys := by
  cases draft with
  | null | bool | number | string =>
      rw [toJson?, Option.some.injEq] at h
      simp [← h]
  | array items =>
      rw [toJson?] at h
      obtain ⟨values, hvalues, rfl⟩ := Option.map_eq_some_iff.mp h
      refine hasDistinctKeys_array.mpr (forall_itemsToJson? (fun item hitem value hvalue => ?_)
        (by simp) hvalues)
      have := List.sizeOf_lt_of_mem hitem
      exact hasDistinctKeys_of_toJson? hvalue
  | object drafts =>
      rw [toJson?] at h
      obtain ⟨entries, hentries, rfl⟩ := Option.map_eq_some_iff.mp h
      refine Entries.hasDistinctKeys_merge (forall_entriesToJson? (fun entry hentry value
        hvalue => ?_) (by simp) hentries)
      have hlt := List.sizeOf_lt_of_mem hentry
      have hinner : sizeOf entry.2 < sizeOf entry := by
        obtain ⟨key, inner⟩ := entry
        rw [Prod.mk.sizeOf_spec]
        dsimp only
        omega
      exact hasDistinctKeys_of_toJson? hvalue
  | unreadable => exact absurd h (by simp [toJson?])
termination_by sizeOf draft
decreasing_by
  all_goals subst_vars
  · rw [array.sizeOf_spec]
    omega
  · rw [object.sizeOf_spec]
    omega

end Draft

/-! ## Lists and maps -/

section Lists

variable {α β : Type} {items : List α} {answers : List β}

/-- Whatever was collected is the answer for an item. -/
theorem exists_of_mem_mapM {f : α → Option β} (h : items.mapM f = some answers) {answer : β}
    (hanswer : answer ∈ answers) : ∃ item ∈ items, f item = some answer := by
  induction items generalizing answers with
  | nil =>
      obtain rfl := Option.some.inj h
      exact absurd hanswer List.not_mem_nil
  | cons first rest ih =>
      rw [List.mapM_cons] at h
      obtain ⟨value, hvalue, h⟩ := Option.bind_eq_some_iff.mp h
      obtain ⟨others, hothers, h⟩ := Option.bind_eq_some_iff.mp h
      obtain rfl := Option.some.inj h
      rcases List.mem_cons.mp hanswer with rfl | hrest
      · exact ⟨first, List.mem_cons_self, hvalue⟩
      · obtain ⟨item, hitem, hsome⟩ := ih hothers hrest
        exact ⟨item, List.mem_cons_of_mem _ hitem, hsome⟩

end Lists

/-- What a map that was made of entries holds is the value of one of them. -/
theorem NameMap.mem_of_get?_ofList {α : Type} {entries : List (String × α)} {name : String}
    {value : α} (h : (ofList entries).get? name = some value) : (name, value) ∈ entries := by
  have hfold : ∀ (entries : List (String × α)) (map : NameMap α),
      (entries.foldl (fun map entry => map.insert entry.1 entry.2) map).get? name = some value →
        (name, value) ∈ entries ∨ map.get? name = some value := by
    intro entries
    induction entries with
    | nil => exact fun _ h => Or.inr h
    | cons entry rest ih =>
        intro map h
        rcases ih _ h with hrest | hmap
        · exact Or.inl (List.mem_cons_of_mem _ hrest)
        · rw [get?_insert] at hmap
          split at hmap
          next hsame =>
              obtain rfl := Option.some.inj hmap
              exact Or.inl (hsame ▸ List.mem_cons_self)
          next => exact Or.inr hmap
  exact (hfold entries empty h).resolve_right (by simp)

/-! ## Stores -/

theorem RootDocument.hasDistinctKeys_of_ofDraft? {draft : Draft} {root : RootDocument}
    (h : ofDraft? draft = some root) : root.value.HasDistinctKeys := by
  unfold ofDraft? at h
  obtain ⟨slots, -, h⟩ := Option.bind_eq_some_iff.mp h
  split at h
  next type value =>
      obtain ⟨text, -, h⟩ := Option.bind_eq_some_iff.mp h
      obtain ⟨held, hheld, h⟩ := Option.bind_eq_some_iff.mp h
      obtain rfl := Option.some.inj h
      obtain ⟨inner, -, hinner⟩ := Option.bind_eq_some_iff.mp hheld
      exact Draft.hasDistinctKeys_of_toJson? hinner
  next => exact absurd h (by simp)

namespace StoreDocument

variable {document : StoreDocument} {registry : Registry} {project store name : String}

theorem hasDistinctKeys_of_parse? {text : String} (h : parse? text = some document)
    {root : RootDocument} (hroot : (name, root) ∈ document.roots.entries) :
    root.value.HasDistinctKeys := by
  obtain ⟨draft, -, h⟩ := Option.bind_eq_some_iff.mp h
  unfold ofDraft? at h
  obtain ⟨slots, -, h⟩ := Option.bind_eq_some_iff.mp h
  split at h
  next format schema roots =>
      obtain ⟨_, -, h⟩ := Option.bind_eq_some_iff.mp h
      obtain ⟨_, -, h⟩ := Option.bind_eq_some_iff.mp h
      obtain ⟨map, hmap, h⟩ := Option.bind_eq_some_iff.mp h
      obtain rfl := Option.some.inj h
      obtain ⟨inner, -, hinner⟩ := Option.bind_eq_some_iff.mp hmap
      unfold Decode.map? at hinner
      split at hinner
      next entries =>
          obtain ⟨decoded, hdecoded, rfl⟩ := Option.map_eq_some_iff.mp hinner
          have hmem := NameMap.mem_of_get?_ofList (NameMap.get?_eq_some_iff.mpr hroot)
          obtain ⟨entry, -, hentry⟩ := exists_of_mem_mapM hdecoded hmem
          obtain ⟨value, hvalue, hsame⟩ := Option.map_eq_some_iff.mp hentry
          obtain ⟨-, rfl⟩ := Prod.mk.inj hsame
          exact RootDocument.hasDistinctKeys_of_ofDraft? hvalue
      next => exact absurd hinner (by simp)
  next => exact absurd h (by simp)

theorem hasDistinctKeys_of_restore {kept : Store}
    (hkeys : ∀ name root, (name, root) ∈ document.roots.entries → root.value.HasDistinctKeys)
    (h : document.restore registry project store = .ok kept) {root : Root}
    (hroot : NameMap.get? kept name = some root) : root.HasDistinctKeys := by
  by_cases hformat : document.format = storeFormat
  · by_cases hschema : document.schema = project
    · simp only [restore, hformat, hschema, ne_eq, not_true_eq_false, if_false, bind_eq_ok,
        pure_eq_ok] at h
      obtain ⟨roots, hroots, rfl⟩ := h
      obtain ⟨⟨key, held⟩, hheld, hrestored⟩ :=
        exists_of_mem_mapM_ok hroots (NameMap.mem_of_get?_ofList hroot)
      unfold restoreRoot at hrestored
      simp only [bind_eq_ok, pure_eq_ok] at hrestored
      obtain ⟨type, -, hsame⟩ := hrestored
      obtain ⟨-, rfl⟩ := Prod.mk.inj hsame
      exact hkeys key held hheld
    · simp [restore, hformat, hschema, throw, throwThe, MonadExceptOf.throw, bind, Except.bind] at h
  · simp [restore, hformat, throw, throwThe, MonadExceptOf.throw, bind, Except.bind] at h

end StoreDocument

namespace Project

variable {project : Project} {registry : Registry} {stores after : Stores} {files : Directory}

theorem hasDistinctKeys_of_restoreStore {entry : String × String}
    (hstores : stores.EveryRoot Root.HasDistinctKeys)
    (h : project.restoreStore registry stores entry = .ok after) :
    after.EveryRoot Root.HasDistinctKeys := by
  unfold restoreStore at h
  split at h
  next => exact Except.ok.inj h ▸ hstores
  next store _ =>
      simp only [bind_eq_ok, pure_eq_ok] at h
      obtain ⟨document, hdocument, kept, hkept, rfl⟩ := h
      refine hstores.insert fun name root hroot => Or.inr ?_
      refine StoreDocument.hasDistinctKeys_of_restore (fun other held hheld => ?_) hkept hroot
      unfold readDocument at hdocument
      split at hdocument
      next parsed hparsed =>
          obtain rfl := Except.ok.inj hdocument
          exact StoreDocument.hasDistinctKeys_of_parse? hparsed hheld
      next => exact absurd hdocument (by simp)

/-- What is restored comes from a schema document and the store documents. -/
theorem restored_of_restore? {content : Content} (h : project.restore? files = .ok (some content)) :
    ∃ document : SchemaDocument, document.restore = .ok content.registry ∧
      files.entries.foldlM (project.restoreStore content.registry) NameMap.empty =
        .ok content.stores := by
  unfold restore? at h
  split at h
  next => exact absurd h (by simp)
  next =>
      simp only [bind_eq_ok, pure_eq_ok] at h
      obtain ⟨document, -, registry, hregistry, stores, hstores, hsame⟩ := h
      obtain rfl := Option.some.inj hsame
      exact ⟨document, hregistry, hstores⟩

theorem hasDistinctKeys_of_restore? {content : Content}
    (h : project.restore? files = .ok (some content)) :
    content.stores.EveryRoot Root.HasDistinctKeys := by
  obtain ⟨-, -, hstores⟩ := restored_of_restore? h
  refine foldlM_keeps (fun stores : Stores => stores.EveryRoot Root.HasDistinctKeys)
    (fun _ _ _ hkeys hnext => ?_) ?_ hstores
  · exact hasDistinctKeys_of_restoreStore hkeys hnext
  · exact fun store name root hroot => absurd hroot (by simp [Stores.root?])

end Project

/-! ## Databases -/

/-- A main store that is put in holds no roots. -/
theorem Stores.EveryRoot.withMain {stores : Stores} {property : Root → Prop}
    (h : stores.EveryRoot property) : stores.withMain.EveryRoot property := by
  unfold Stores.withMain
  split
  · exact h
  · exact h.insert fun name root hroot => absurd hroot (by simp)

namespace Database

variable {digest : String → String} {database : Database}

/-- The databases that are opened, from whatever files, and those that any sequence of mutations leads
to from there. -/
inductive Opened (digest : String → String) : Database → Prop
  | opened {project : Option Project} {files : Directory} {database : Database}
      (h : openAt digest project files = .ok database) : Opened digest database
  | applied {database : Database} (h : Opened digest database) (time : Timestamp)
      (files : Directory) (mutation : Mutation) (hmutation : mutation.HasDistinctKeys) :
      Opened digest (database.apply digest time files mutation).database

/-- A database that is opened is a new one, or its content was restored. -/
theorem content_of_openAt {project : Option Project} {files : Directory}
    (h : openAt digest project files = .ok database) :
    database.content = .initial ∨ ∃ source content,
      Project.restore? source files = .ok (some content) ∧
        database.content = ⟨content.registry, content.stores.withMain⟩ := by
  cases project with
  | none =>
      obtain rfl := Except.ok.inj h
      exact .inl rfl
  | some project =>
      obtain ⟨restored, hrestored, hregistry, hstores⟩ := restore?_of_openProject h
      have hcontent : database.content = ⟨(restored.getD ⟨.initial, NameMap.empty⟩).registry,
          (restored.getD ⟨.initial, NameMap.empty⟩).stores.withMain⟩ := by
        rw [← hregistry, ← hstores]
      cases restored with
      | none => exact .inl hcontent
      | some content => exact .inr ⟨project, content, hrestored, hcontent⟩

theorem hasDistinctKeys_of_openAt {project : Option Project} {files : Directory}
    (h : openAt digest project files = .ok database) :
    database.content.stores.EveryRoot Root.HasDistinctKeys := by
  rcases content_of_openAt h with hinitial | ⟨source, content, hrestored, hcontent⟩
  · intro store name root hroot
    rw [hinitial, Content.root?_initial] at hroot
    exact absurd hroot (by simp)
  · rw [hcontent]
    exact (Project.hasDistinctKeys_of_restore? hrestored).withMain

/-- No object in the stores repeats a key. -/
theorem Opened.hasDistinctKeys (h : Opened digest database) :
    database.content.stores.EveryRoot Root.HasDistinctKeys := by
  induction h with
  | opened h => exact hasDistinctKeys_of_openAt h
  | @applied database _ time files mutation hmutation ih =>
      rcases apply_content_cases digest database time files mutation with
        ⟨_, -, hsame⟩ | ⟨change, hchange, hcontent⟩
      · rw [hsame]
        exact ih
      · rw [hcontent]
        exact (Mutation.hasDistinctKeys_carryOut ih hmutation hchange).stores

end Database
end LiveSchema
