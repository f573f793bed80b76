import LiveSchema.Proofs.Mutation.Family
import LiveSchema.Proofs.Mutation.Sites

/-!
# Revisions that replay changes

A change of the fields of a record revises the objects of the record, and of everything that extends
it.  To know what becomes of the stores, it is enough to look at the entries of one object: the
revision and the change in place have to hold the same under every key, and the fields that stay have
to stay with what they hold.
-/

namespace LiveSchema

universe u v

theorem SameItems.filterMap {α : Type u} {β : Type v} {strict : Prop} {first second : List α}
    (h : SameItems strict first second) {f g : α → Option β} (hsame : ∀ a ∈ second, f a = g a) :
    SameItems strict (first.filterMap f) (second.filterMap g) := by
  rw [← List.filterMap_congr hsame]
  exact ⟨h.perm.filterMap f, fun hstrict => congrArg (List.filterMap f) (h.order hstrict)⟩

namespace Registry

variable {registry before after : Registry} {record : TypeHandle} {reference : TypeReference}
  {value : Json} {strict : Prop} {closed : Barrier} {g : TypeHandle → Entries → Entries}
  {changeAt : TypeReference → Json → Json → Json}

/-! ## What lies in objects -/

/-- The value that an object holds for a field. -/
def heldChild? (entries : Entries) (field : Field) : Option Child :=
  (Entries.value? entries field.name).map fun inner => ⟨field.type, .field field.name, inner⟩

/-- The fields of a record that are not closed. -/
def openFields (registry : Registry) (closed : Barrier) (reference : TypeReference) : List Field :=
  (registry.allFields reference.handle).filter fun field =>
    !closed reference (.field field.name)

theorem openChildren_of_record {entries : Entries}
    (hkind : registry.kind? reference.handle = some .record) :
    registry.openChildren closed reference (.object entries) =
      (registry.openFields closed reference).filterMap (heldChild? entries) := by
  rw [openChildren, childValues, parts_of_record hkind, Parts.children, openFields,
    List.filter_filterMap, List.filterMap_filter]
  refine List.filterMap_congr fun field _ => ?_
  rw [heldChild?]
  cases Entries.value? entries field.name with
  | none => simp
  | some inner => simp [Option.filter]

theorem parts_ne_fields (hkind : registry.kind? reference.handle ≠ some .record)
    (declared : List Field) (entries : Entries) :
    registry.parts reference value ≠ .fields declared entries := by
  intro hfields
  have hparts := registry.partsOf_parts reference value
  rw [hfields] at hparts
  cases hparts with
  | fields entries hfound hbody =>
      rw [kind?_of_get? hfound, hbody] at hkind
      exact hkind rfl

/-- An object that conforms holds a value for every effective field. -/
theorem WellFormed.exists_held (hwf : registry.WellFormed) {entries : Entries} {field : Field}
    (hfield : field ∈ registry.allFields reference.handle)
    (hconforms : registry.conforms reference (.object entries) = true) :
    ∃ held, Entries.value? entries field.name = some held := by
  have hkind : registry.kind? reference.handle = some .record :=
    kind?_eq_record_iff.mpr (hwf.isRecord_of_mem_allFields hfield)
  obtain ⟨held, hheld, -⟩ := ((conforms_object_iff hkind).mp hconforms).2 field.name field.type
    (mem_slots_iff.mpr ⟨field, hfield, rfl, rfl⟩)
  exact ⟨held, hheld⟩

/-! ## One object at a time -/

/-- The entries that an object gets are those that its change in place leaves, and what lies in them
behind open steps lay there before. -/
structure RevisesObject (strict : Prop) (before after : Registry) (record : TypeHandle)
    (closed : Barrier) (g : TypeHandle → Entries → Entries)
    (changeAt : TypeReference → Json → Json → Json) (reference : TypeReference)
    (entries : Entries) : Prop where
  distinct : (Entries.keys (g reference.handle entries)).Nodup
  changed : ∃ changed, changeAt reference (.object entries) (.object entries) = .object changed ∧
    SameItems strict (Entries.keys (g reference.handle entries)) (Entries.keys changed) ∧
    ∀ key, Entries.value? (g reference.handle entries) key = Entries.value? changed key
  /-- The open fields are those of before. -/
  fields : SameItems strict (after.openFields closed reference) (before.openFields closed reference)
  /-- Each open field keeps what it holds. -/
  kept : ∀ field ∈ before.openFields closed reference,
    Entries.value? (g reference.handle entries) field.name = Entries.value? entries field.name
  /-- A closed field holds no object of the family. -/
  fresh : ∀ field ∈ after.allFields reference.handle,
    closed reference (.field field.name) = true →
      ∀ inner, Entries.value? (g reference.handle entries) field.name = some inner →
        after.Everywhere (fun type _ => ¬ after.Extends type.handle record) field.type inner

/-- A revision of the objects of a family replays changes in place if it does so for the entries of
each object. -/
theorem SameButFamily.replays (hsame : SameButFamily before after record)
    (hbefore : before.WellFormed)
    (hfields : ∀ handle, ¬ after.Extends handle record →
      after.allFields handle = before.allFields handle)
    (hclosed : ∀ reference segment, ¬ after.Extends reference.handle record →
      closed reference segment = false)
    (hidle : ∀ reference value, ¬ after.Extends reference.handle record →
      changeAt reference value value = value)
    (hobject : ∀ reference entries, after.Extends reference.handle record →
      before.conforms reference (.object entries) = true →
        RevisesObject strict before after record closed g changeAt reference entries) :
    Replays strict before after closed (fun type => after.isParentOf record type.handle)
      (after.reviseFamily record g) changeAt := by
  have hafter := hsame.wellFormed
  have hfree : ∀ type : TypeReference, after.isParentOf record type.handle = false ↔
      ¬ after.Extends type.handle record := by
    intro type
    rw [← isParentOf_iff, Bool.not_eq_true]
  have hentries : ∀ reference value, after.Extends reference.handle record →
      before.conforms reference value = true → ∃ entries, value = .object entries :=
    fun reference value hextends hconforms =>
      exists_object_of_outerFits (hsame.kinds _ hextends).1 (conforms_iff.mp hconforms).1
  -- outside the family, values hold what they held
  have hparts : ∀ reference value, ¬ after.Extends reference.handle record →
      after.parts reference value = before.parts reference value :=
    fun reference value hout => parts_congr (hsame.alike _ hout).kind (hfields _ hout)
  refine ⟨hbefore.names, hafter.names, ?_, ?_, ?_, ?_⟩
  · intro type inner hout
    exact reviseFamily_of_not_extends ((hfree type).mp hout) inner
  · intro reference value hconforms
    by_cases hextends : after.Extends reference.handle record
    · obtain ⟨entries, rfl⟩ := hentries reference value hextends hconforms
      obtain ⟨hkindBefore, hkindAfter⟩ := hsame.kinds _ hextends
      have hrevises := hobject reference entries hextends hconforms
      rw [reviseFamily_of_extends hextends, openChildren_of_record hkindAfter,
        openChildren_of_record hkindBefore]
      refine hrevises.fields.filterMap fun field hfield => ?_
      rw [heldChild?, heldChild?, hrevises.kept field hfield]
    · rw [reviseFamily_of_not_extends hextends, openChildren, openChildren, childValues,
        childValues, hparts reference value hextends]
      exact .of_eq rfl
  · intro reference value hconforms child hchild hbarred
    have hextends : after.Extends reference.handle record := by
      by_contra hout
      rw [hclosed _ _ hout] at hbarred
      exact absurd hbarred (by simp)
    obtain ⟨entries, rfl⟩ := hentries reference value hextends hconforms
    rw [reviseFamily_of_extends hextends] at hchild
    obtain ⟨field, hfield, inner, hinner, rfl⟩ :=
      (mem_childValues_of_record (hsame.kinds _ hextends).2).mp hchild
    have hfresh := (hobject reference entries hextends hconforms).fresh field hfield hbarred inner
      hinner
    exact fun type inner hwithin => (hfree type).mpr (hfresh type inner hwithin)
  · intro reference value hconforms
    by_cases hextends : after.Extends reference.handle record
    · obtain ⟨entries, rfl⟩ := hentries reference value hextends hconforms
      obtain ⟨hkindBefore, hkindAfter⟩ := hsame.kinds _ hextends
      obtain ⟨hdistinct, ⟨changed, hchanged, hkeys, hvalues⟩, -, -, -⟩ :=
        hobject reference entries hextends hconforms
      exact Or.inl ⟨hkindBefore, hkindAfter, _, changed,
        reviseFamily_of_extends hextends entries, hchanged, hdistinct, hkeys, hvalues⟩
    · by_cases hkind : before.kind? reference.handle = some .record
      · obtain ⟨entries, rfl⟩ := exists_object_of_outerFits hkind (conforms_iff.mp hconforms).1
        exact Or.inl ⟨hkind, (hsame.alike _ hextends).kind.trans hkind, entries, entries,
          reviseFamily_of_not_extends hextends _, hidle _ _ hextends,
          hbefore.keys_nodup hkind hconforms, .of_eq rfl, fun _ => rfl⟩
      · exact Or.inr ⟨reviseFamily_of_not_extends hextends _, hidle _ _ hextends,
          hparts _ _ hextends, parts_ne_fields hkind, fun segment => hclosed _ _ hextends⟩

end Registry

/-! ## Whole stores -/

/-- The changes at the values of matching types; other values stay as they are. -/
def changeWhere (concerned : TypeReference → Bool) (change : Json → Json → Json)
    (type : TypeReference) (old : Json) : Json → Json :=
  if concerned type then change old else id

namespace Stores

variable {stores : Stores} {before after : Registry} {record : TypeHandle} {strict : Prop}
  {closed : Barrier} {g : TypeHandle → Entries → Entries}
  {tally : Place → TypeHandle → Entries → Entries × List Backup}
  {concerned : TypeReference → Bool} {change : Json → Json → Json}

/-- What is reached in roots that conform conforms, and what extends a record is an object. -/
theorem exists_object_of_mem_reachedSites {registry : Registry} {site : Site}
    (hwf : registry.WellFormed) (hrecord : registry.IsRecord record)
    (h : stores.EveryRoot registry.ConformingRoot)
    (hsite : site ∈ stores.reachedSites registry closed concerned)
    (hextends : registry.Extends site.type.handle record) :
    ∃ entries, site.value = .object entries ∧
      registry.conforms site.type (.object entries) = true := by
  obtain ⟨root, hroot, hwithin, -, -⟩ := mem_reachedSites hsite
  have hconforms : registry.conforms site.type site.value = true :=
    Registry.everywhere_of_conforms (h _ _ _ hroot) _ _ hwithin
  have hkind := Registry.kind?_eq_record_iff.mpr (hwf.isRecord_of_extends hrecord hextends)
  obtain ⟨entries, hentries⟩ :=
    Registry.exists_object_of_outerFits hkind (Registry.conforms_iff.mp hconforms).1
  exact ⟨entries, hentries, hentries ▸ hconforms⟩

/-- Such an object holds a value for every field that the record declares. -/
theorem exists_held_of_mem_reachedSites {registry : Registry} {site : Site} {own : Field}
    (hwf : registry.WellFormed) (hown : own ∈ registry.ownFields record)
    (h : stores.EveryRoot registry.ConformingRoot)
    (hsite : site ∈ stores.reachedSites registry closed concerned)
    (hextends : registry.Extends site.type.handle record) :
    ∃ entries held, site.value = .object entries ∧
      Entries.value? entries own.name = some held := by
  obtain ⟨definition, hfound, hisRecord, -⟩ := Registry.get?_of_mem_ownFields hown
  obtain ⟨entries, hentries, hfits⟩ :=
    exists_object_of_mem_reachedSites hwf ⟨definition, hfound, hisRecord⟩ h hsite hextends
  obtain ⟨held, hheld⟩ := hwf.exists_held
    ((Registry.mem_allFields_iff hwf.inheritance).mpr ⟨record, hextends, hown⟩) hfits
  exact ⟨entries, held, hentries, hheld⟩

theorem replayed_changeWhere :
    stores.replayed before closed (changeWhere concerned change) =
      stores.changedAt before closed concerned change := by
  unfold replayed changedAt
  refine congrArg stores.mapRoots (funext fun root => ?_)
  have hother : ∀ type inner, concerned type = false →
      changeWhere concerned change type inner = id := by
    intro type inner hout
    rw [changeWhere, hout]
    rfl
  rw [Registry.replay_eq_filter concerned _ hother, Registry.reachedIn, Visit.concerning]
  refine congrArg (Root.mk root.type) (List.foldl_ext _ _ _ fun value visit hvisit => ?_)
  rw [changeWhere, if_pos (List.mem_filter.mp hvisit).2]

/-- A revision of the objects of a family makes of the stores what the changes in place make of them,
if it does so for the entries of each object.  Every object is counted once, and gives its backups. -/
theorem tallyRecords_of_sameButFamily (hsame : Registry.SameButFamily before after record)
    (hbefore : before.WellFormed)
    (hfields : ∀ handle, ¬ after.Extends handle record →
      after.allFields handle = before.allFields handle)
    (hfamily : ∀ type : TypeReference,
      after.isParentOf record type.handle = before.isParentOf record type.handle)
    (hclosed : ∀ reference segment, ¬ after.Extends reference.handle record →
      closed reference segment = false)
    (hconcerned : ∀ reference, ¬ after.Extends reference.handle record →
      concerned reference = false)
    (hobject : ∀ reference entries, after.Extends reference.handle record →
      before.conforms reference (.object entries) = true →
        Registry.RevisesObject strict before after record closed g
          (changeWhere concerned change) reference entries)
    (htally : ∀ place type entries, (tally place type entries).1 = g type entries)
    (h : stores.EveryRoot before.ConformingRoot) :
    Like strict (stores.tallyRecords after record tally).2
        (stores.changedAt before closed concerned change) ∧
      (stores.tallyRecords after record tally).1.count =
        (stores.reachedSites before closed
          fun type => before.isParentOf record type.handle).length ∧
      SameItems strict (stores.tallyRecords after record tally).1.backup
        ((stores.reachedSites before closed
          fun type => before.isParentOf record type.handle).flatMap (backupsAt tally)) := by
  have hidle : ∀ (reference : TypeReference) (value : Json),
      ¬ after.Extends reference.handle record →
        changeWhere concerned change reference value value = value := by
    intro reference value hout
    rw [changeWhere, hconcerned reference hout]
    rfl
  have hall := tallyRecords_of_replays
    (hsame.replays hbefore hfields hclosed hidle hobject) htally h
  rwa [replayed_changeWhere, funext hfamily] at hall

end Stores
end LiveSchema
