import LiveSchema.Proofs.Mutation.Revision

/-!
# Objects that lose a field

Objects that are given exactly the fields of their record keep what they hold under the names that
stay, and lose the rest.  Where one field is gone, this is what lay under its name; where none is gone,
nothing is lost, and only the order of the entries may be another one.
-/

namespace LiveSchema

theorem flatMap_singleton_eq_map_filter {α : Type u} {β : Type v} (p : α → Bool) (f : α → β)
    (list : List α) :
    (list.flatMap fun a => if p a then [f a] else []) = (list.filter p).map f := by
  induction list with
  | nil => rfl
  | cons a rest ih =>
      rw [List.flatMap_cons, ih]
      by_cases h : p a = true
      · rw [if_pos h, List.filter_cons_of_pos h, List.map_cons, List.singleton_append]
      · rw [if_neg h, List.filter_cons_of_neg h, List.nil_append]

/-- The object without a key; other values stay as they are. -/
def Json.without (key : String) : Json → Json
  | .object entries => .object (entries.filter fun entry => entry.1 ≠ key)
  | value => value

namespace Entries

variable {entries : Entries} {key : String}

theorem keys_without (key : String) (entries : Entries) :
    keys (entries.filter fun entry => entry.1 ≠ key) = (keys entries).filter fun k => k ≠ key := by
  rw [keys, keys, List.filter_map]
  rfl

theorem value?_without (key : String) (entries : Entries) (other : String) :
    value? (entries.filter fun entry => entry.1 ≠ key) other =
      if other = key then none else value? entries other := by
  induction entries with
  | nil => simp
  | cons entry rest ih =>
      by_cases hentry : entry.1 = key
      · rw [List.filter_cons_of_neg (by simp [hentry]), ih, value?_cons]
        by_cases hother : other = key
        · rw [if_pos hother, if_pos hother]
        · rw [if_neg hother, if_neg hother, if_neg fun h => hother (h.symm.trans hentry)]
      · rw [List.filter_cons_of_pos (by simp [hentry]), value?_cons, ih, value?_cons]
        by_cases hother : other = key
        · rw [if_pos hother, if_pos hother, if_neg fun h => hentry (h.trans hother)]
        · rw [if_neg hother, if_neg hother]

/-- Exactly one entry has a key. -/
theorem filter_eq_singleton {value : Json} (hnodup : (keys entries).Nodup)
    (h : value? entries key = some value) :
    (entries.filter fun entry => entry.1 = key) = [(key, value)] := by
  induction entries with
  | nil => exact absurd h (by simp)
  | cons entry rest ih =>
      obtain ⟨hnot, hrest⟩ := List.nodup_cons.mp hnodup
      rw [value?_cons] at h
      by_cases hentry : entry.1 = key
      · rw [if_pos hentry, Option.some.injEq] at h
        have hnone : (rest.filter fun other => other.1 = key) = [] := by
          refine List.filter_eq_nil_iff.mpr fun other hother => ?_
          rw [decide_eq_true_eq]
          rintro hsame
          exact hnot (hentry ▸ hsame ▸ List.mem_map_of_mem hother)
        rw [List.filter_cons_of_pos (by simp [hentry]), hnone, ← hentry, ← h]
      · rw [if_neg hentry] at h
        rw [List.filter_cons_of_neg (by simp [hentry]), ih hrest h]

end Entries

/-- The step that gives one object exactly the fields of its record. -/
def Stores.conformingAt (registry : Registry) (place : Place) (type : TypeHandle)
    (entries : Entries) : Entries × List Backup :=
  (registry.conformed type entries,
    (registry.conform type entries).2.map fun entry => ⟨place, some entry.1, entry.2⟩)

namespace Registry

variable {before after : Registry} {record : TypeHandle} {own : Field}
  {losing : TypeReference → Bool} {reference : TypeReference} {entries : Entries}

/-- The steps to the values that are lost. -/
def lostSteps (losing : TypeReference → Bool) (name : String) : Barrier := fun type segment =>
  losing type && segment = .field name

/-- Some types of a family lose a field, and all other effective fields stay, in whatever order. -/
structure FieldLost (before after : Registry) (record : TypeHandle) (own : Field)
    (losing : TypeReference → Bool) : Prop where
  wellFormed : before.WellFormed
  same : SameButFamily before after record
  outside : ∀ handle, ¬ after.Extends handle record →
    after.allFields handle = before.allFields handle
  family : ∀ handle, after.Extends handle record ↔ before.Extends handle record
  within : ∀ type, losing type = true → after.Extends type.handle record
  lost : ∀ type, losing type = true →
    (before.allFields type.handle).Perm (own :: after.allFields type.handle)
  kept : ∀ type, losing type = false → after.Extends type.handle record →
    (before.allFields type.handle).Perm (after.allFields type.handle)

namespace FieldLost

section Object

variable (h : FieldLost before after record own losing)

include h

theorem isParentOf_eq (type : TypeReference) :
    after.isParentOf record type.handle = before.isParentOf record type.handle := by
  rw [Bool.eq_iff_iff, isParentOf_iff, isParentOf_iff, h.family]

/-- The lost field is no effective field any more. -/
theorem fresh (hlosing : losing reference = true) :
    own.name ∉ after.allFieldNames reference.handle := by
  have hnames := h.wellFormed.names reference.handle
  rw [allFieldNames, ((h.lost reference hlosing).map Field.name).nodup_iff] at hnames
  exact (List.nodup_cons.mp hnames).1

/-- The effective fields that are left were there before. -/
theorem subset (hextends : after.Extends reference.handle record) :
    after.allFields reference.handle ⊆ before.allFields reference.handle := by
  intro field hfield
  cases hlosing : losing reference with
  | true => exact (h.lost reference hlosing).mem_iff.mpr (List.mem_cons_of_mem _ hfield)
  | false => exact (h.kept reference hlosing hextends).mem_iff.mpr hfield

/-- The effective fields behind open steps are those that are left. -/
theorem openFields_perm (hextends : after.Extends reference.handle record) :
    (after.openFields (lostSteps losing own.name) reference).Perm
      (before.openFields (lostSteps losing own.name) reference) := by
  unfold openFields lostSteps
  cases hlosing : losing reference with
  | true =>
      refine List.Perm.trans ?_ ((h.lost reference hlosing).filter _).symm
      rw [List.filter_cons_of_neg (by simp)]
  | false => exact ((h.kept reference hlosing hextends).filter _).symm

/-- What an object of the family is before the change. -/
theorem keys_perm (hextends : after.Extends reference.handle record)
    (hconforms : before.conforms reference (.object entries) = true) :
    (Entries.keys entries).Nodup ∧
      (Entries.keys entries).Perm (before.allFieldNames reference.handle) := by
  have hkind := (h.same.kinds _ hextends).1
  exact ⟨h.wellFormed.keys_nodup hkind hconforms,
    keys_nodup_of_conforms hkind (h.wellFormed.names _) hconforms⟩

/-- Under the names that are left, an object keeps what it holds. -/
theorem value?_conformed (hextends : after.Extends reference.handle record)
    (hconforms : before.conforms reference (.object entries) = true) {key : String}
    (hkey : key ∈ after.allFieldNames reference.handle) :
    Entries.value? (after.conformed reference.handle entries) key = Entries.value? entries key := by
  obtain ⟨field, hfield, rfl⟩ := List.mem_map.mp hkey
  obtain ⟨held, hheld⟩ := h.wellFormed.exists_held (h.subset hextends hfield) hconforms
  rw [h.same.wellFormed.value?_conformed (h.keys_perm hextends hconforms).1
    (mem_slots_iff.mpr ⟨field, hfield, rfl, rfl⟩), hheld, Option.getD_some]

theorem keys_conformed (hextends : after.Extends reference.handle record)
    (hconforms : before.conforms reference (.object entries) = true) :
    Entries.keys (after.conformed reference.handle entries) =
      after.allFieldNames reference.handle :=
  h.same.wellFormed.keys_conformed (h.keys_perm hextends hconforms).1

/-- An object becomes any object that has the names that are left as its keys, and holds under them
what it held. -/
theorem conformed_like (hextends : after.Extends reference.handle record)
    (hconforms : before.conforms reference (.object entries) = true) {changed : Entries}
    (hkeys : (after.allFieldNames reference.handle).Perm (Entries.keys changed))
    (hvalues : ∀ key ∈ after.allFieldNames reference.handle,
      Entries.value? changed key = Entries.value? entries key) :
    SameItems False (Entries.keys (after.conformed reference.handle entries))
        (Entries.keys changed) ∧
      ∀ key, Entries.value? (after.conformed reference.handle entries) key =
        Entries.value? changed key := by
  have hconformed := h.keys_conformed hextends hconforms
  refine ⟨.of_perm (hconformed ▸ hkeys), fun key => ?_⟩
  by_cases hkey : key ∈ after.allFieldNames reference.handle
  · rw [h.value?_conformed hextends hconforms hkey, hvalues key hkey]
  · rw [Entries.value?_eq_none_iff.mpr (hconformed ▸ hkey)]
    exact (Entries.value?_eq_none_iff.mpr fun hmem => hkey (hkeys.mem_iff.mpr hmem)).symm

/-- Giving an object exactly the fields of its record takes the lost key out of it. -/
theorem revises (hextends : after.Extends reference.handle record)
    (hconforms : before.conforms reference (.object entries) = true) :
    RevisesObject False before after record (lostSteps losing own.name) after.conformed
      (changeWhere losing fun _ => Json.without own.name) reference entries := by
  obtain ⟨hnodup, hkeys⟩ := h.keys_perm hextends hconforms
  refine ⟨?_, ?_, .of_perm (h.openFields_perm hextends), ?_, ?_⟩
  · rw [h.keys_conformed hextends hconforms]
    exact h.same.wellFormed.names _
  · cases hlosing : losing reference with
    | true =>
        refine ⟨entries.filter fun entry => entry.1 ≠ own.name, ?_,
          h.conformed_like hextends hconforms ?_ fun key hkey => ?_⟩
        · rw [changeWhere, if_pos hlosing, Json.without]
        · have hperm : (Entries.keys entries).Perm
              (own.name :: after.allFieldNames reference.handle) :=
            hkeys.trans ((h.lost reference hlosing).map Field.name)
          have hfresh := h.fresh hlosing
          rw [Entries.keys_without]
          refine List.Perm.trans ?_ (hperm.filter _).symm
          rw [List.filter_cons_of_neg (by simp), List.filter_eq_self.mpr]
          intro key hkey
          simpa using fun hsame : key = own.name => hfresh (hsame ▸ hkey)
        · have hne : key ≠ own.name := fun hsame => h.fresh hlosing (hsame ▸ hkey)
          rw [Entries.value?_without, if_neg hne]
    | false =>
        refine ⟨entries, ?_, h.conformed_like hextends hconforms ?_ fun _ _ => rfl⟩
        · rw [changeWhere, hlosing]
          rfl
        · exact (hkeys.trans ((h.kept reference hlosing hextends).map Field.name)).symm
  · intro field hfield
    have hleft := List.mem_of_mem_filter ((h.openFields_perm hextends).mem_iff.mpr hfield)
    exact h.value?_conformed hextends hconforms (List.mem_map_of_mem hleft)
  · intro field hfield hbarred
    rw [lostSteps, Bool.and_eq_true, decide_eq_true_eq] at hbarred
    obtain ⟨hlosing, hsegment⟩ := hbarred
    exact absurd (List.mem_map_of_mem hfield)
      (PathSegment.field.inj hsegment ▸ h.fresh hlosing)

/-- What an object has to give up: the entry of the lost field, if it loses one. -/
theorem conform_snd (hextends : after.Extends reference.handle record)
    (hconforms : before.conforms reference (.object entries) = true) :
    (after.conform reference.handle entries).2 =
      if losing reference then [(own.name, (Json.object entries).under own.name)] else [] := by
  obtain ⟨hnodup, hkeys⟩ := h.keys_perm hextends hconforms
  have hleft : (after.conform reference.handle entries).2.Perm
      (entries.filter fun entry => entry.1 ∉ after.allFieldNames reference.handle) :=
    Registry.conform_snd hnodup
  cases hlosing : losing reference with
  | true =>
      have hperm : (Entries.keys entries).Perm
          (own.name :: after.allFieldNames reference.handle) :=
        hkeys.trans ((h.lost reference hlosing).map Field.name)
      have hfresh := h.fresh hlosing
      have hsame : (entries.filter fun entry => entry.1 ∉ after.allFieldNames reference.handle) =
          entries.filter fun entry => entry.1 = own.name := by
        refine List.filter_congr fun entry hentry => ?_
        have hkey := hperm.mem_iff.mp (List.mem_map_of_mem hentry)
        rw [decide_eq_decide]
        constructor
        · exact fun hgone => (List.mem_cons.mp hkey).resolve_right hgone
        · exact fun hname => hname ▸ hfresh
      obtain ⟨held, hheld⟩ := Entries.exists_value?_iff.mpr
        (hperm.mem_iff.mpr List.mem_cons_self)
      rw [hsame, Entries.filter_eq_singleton hnodup hheld] at hleft
      rw [if_pos rfl, Json.under_object hheld]
      exact List.perm_singleton.mp hleft
  | false =>
      have hperm : (Entries.keys entries).Perm (after.allFieldNames reference.handle) :=
        hkeys.trans ((h.kept reference hlosing hextends).map Field.name)
      have hnone : (entries.filter fun entry =>
          entry.1 ∉ after.allFieldNames reference.handle) = [] := by
        refine List.filter_eq_nil_iff.mpr fun entry hentry => ?_
        have hkey := hperm.mem_iff.mp (List.mem_map_of_mem hentry)
        simpa using hkey
      rw [hnone] at hleft
      exact hleft.eq_nil

end Object

/-- The stores lose what lay under the lost field, and nothing else, and what they lose is kept. -/
theorem conformRecords (h : FieldLost before after record own losing)
    (hrecord : before.IsRecord record) {stores : Stores}
    (hconforms : stores.EveryRoot before.ConformingRoot) :
    Stores.Same (stores.conformRecords after record).2
        (stores.changedAt before (lostSteps losing own.name) losing fun _ =>
          Json.without own.name) ∧
      (stores.conformRecords after record).1.backup.Perm
        ((stores.reachedSites before (lostSteps losing own.name) losing).map fun object =>
          ⟨object.place, some own.name, object.value.under own.name⟩) := by
  have hafter := h.same.wellFormed
  have hout : ∀ reference : TypeReference, ¬ after.Extends reference.handle record →
      losing reference = false := by
    intro reference hnot
    rw [← Bool.not_eq_true]
    exact fun hlosing => hnot (h.within reference hlosing)
  have hclosed : ∀ (reference : TypeReference) (segment : PathSegment),
      ¬ after.Extends reference.handle record →
        lostSteps losing own.name reference segment = false := by
    intro reference segment hnot
    rw [lostSteps, hout reference hnot, Bool.false_and]
  have hall : Stores.Same (stores.tallyRecords after record (Stores.conformingAt after)).2
        (stores.changedAt before (lostSteps losing own.name) losing fun _ =>
          Json.without own.name) ∧ _ ∧
      SameItems False (stores.tallyRecords after record (Stores.conformingAt after)).1.backup
        ((stores.reachedSites before (lostSteps losing own.name) fun type =>
          before.isParentOf record type.handle).flatMap
            (Stores.backupsAt (Stores.conformingAt after))) :=
    Stores.tallyRecords_of_sameButFamily h.same h.wellFormed h.outside h.isParentOf_eq hclosed hout
      (fun _ _ => h.revises) (fun _ _ _ => rfl) hconforms
  obtain ⟨hstores, -, hbackup⟩ := hall
  refine ⟨hstores, hbackup.perm.trans ?_⟩
  have hfamily : (fun type : TypeReference =>
      before.isParentOf record type.handle && losing type) = losing := by
    funext type
    cases hlosing : losing type with
    | false => exact Bool.and_false _
    | true =>
        rw [Bool.and_true, isParentOf_iff, ← h.family]
        exact h.within type hlosing
  -- objects that lose nothing have nothing to keep
  have hobject : ∀ object ∈ stores.reachedSites before (lostSteps losing own.name)
      fun type => before.isParentOf record type.handle,
        Stores.backupsAt (Stores.conformingAt after) object =
          if losing object.type then
            [⟨object.place, some own.name, object.value.under own.name⟩]
          else [] := by
    intro object hobject
    obtain ⟨-, -, -, -, hmatching⟩ := Stores.mem_reachedSites hobject
    have hextends := (isParentOf_iff _ _).mp hmatching
    obtain ⟨entries, hentries, hfits⟩ := Stores.exists_object_of_mem_reachedSites h.wellFormed
      hrecord hconforms hobject hextends
    simp only [Stores.backupsAt, hentries, Stores.conformingAt,
      h.conform_snd ((h.family _).mpr hextends) hfits]
    split
    · rfl
    · rfl
  have hlost : stores.reachedSites before (lostSteps losing own.name) losing =
      (stores.reachedSites before (lostSteps losing own.name) fun type =>
        before.isParentOf record type.handle).filter fun object => losing object.type := by
    rw [Stores.filter_reachedSites, hfamily]
  rw [hlost, ← flatMap_singleton_eq_map_filter]
  exact .of_eq (List.flatMap_congr hobject)

end FieldLost

/-- Where nothing is lost, the stores stay the same. -/
theorem FieldLost.conformRecords_same (h : FieldLost before after record own fun _ => false)
    (hrecord : before.IsRecord record) {stores : Stores}
    (hconforms : stores.EveryRoot before.ConformingRoot) :
    Stores.Same (stores.conformRecords after record).2 stores := by
  have hidle : stores.changedAt before (lostSteps (fun _ => false) own.name) (fun _ => false)
      (fun _ => Json.without own.name) = stores := by
    have hnone : ∀ root, before.reachedIn (lostSteps (fun _ => false) own.name)
        (fun _ => false) root = [] := fun root => List.filter_eq_nil_iff.mpr (by simp)
    unfold Stores.changedAt
    simp only [hnone, List.foldl_nil]
    exact Stores.mapRoots_id
  have hall := (h.conformRecords hrecord hconforms).1
  rwa [hidle] at hall

/-! ## Changes that lose a field -/

section Changes

variable {registry : Registry} {source target : TypeHandle} {index : Nat}

/-- Deleting an own field takes it from the record and from everything that extends it. -/
theorem WellFormed.fieldLost_eraseField (hwf : registry.WellFormed)
    (hrecord : registry.IsRecord record)
    (hindex : (registry.ownFields record)[index]? = some own)
    (hafter : after = registry.modifyFields record fun fields => fields.eraseIdx index) :
    FieldLost registry after record own fun type => registry.isParentOf record type.handle := by
  have hwfAfter : after.WellFormed := hafter ▸ hwf.eraseField index hrecord
  have hextends : after.Extends = registry.Extends := by rw [hafter, extends_modifyFields]
  have hfamily (handle : TypeHandle) :
      registry.isParentOf record handle = true ↔ registry.Extends handle record :=
    isParentOf_iff record handle
  refine ⟨hwf, hafter ▸ hwf.sameButFamily_modifyFields _ hrecord (hafter ▸ hwfAfter), ?_, ?_, ?_,
    ?_, ?_⟩
  · intro handle hout
    rw [hextends] at hout
    rw [hafter, hwf.allFields_modifyFields_of_not_extends _ hout]
  · exact fun handle => by rw [hextends]
  · intro type hlosing
    rw [hextends]
    exact (hfamily type.handle).mp hlosing
  · intro type hlosing
    obtain ⟨above, below, hold, hnew⟩ :=
      hwf.allFields_eraseField hrecord hindex ((hfamily type.handle).mp hlosing)
    rw [hafter, hold, hnew]
    exact List.perm_middle
  · intro type hlosing hinside
    rw [hextends, ← hfamily, hlosing] at hinside
    exact absurd hinside Bool.false_ne_true

/-- Moving an own field down takes it from what extends its record, but not the target. -/
theorem WellFormed.fieldLost_moveField (hwf : registry.WellFormed)
    (hsource : registry.IsRecord source) (htarget : registry.IsRecord target)
    (hderived : registry.Extends target source)
    (hindex : (registry.ownFields source)[index]? = some own)
    (hafter : after = (registry.modifyFields source fun fields =>
      fields.eraseIdx index).modifyFields target fun fields => own :: fields) :
    FieldLost registry after source own fun type =>
      registry.isParentOf source type.handle && !registry.isParentOf target type.handle := by
  obtain ⟨hsame, hextends, hfields⟩ :=
    hwf.sameButFamily_moveField hsource htarget hderived hindex hafter
  have hlosing : ∀ handle, (registry.isParentOf source handle &&
      !registry.isParentOf target handle) = true ↔
        registry.Extends handle source ∧ ¬ registry.Extends handle target := by
    intro handle
    rw [Bool.and_eq_true, Bool.not_eq_true', ← Bool.not_eq_true,
      isParentOf_iff, isParentOf_iff]
  have hperm := fun (handle : TypeHandle) (hbelow : registry.Extends handle source) =>
    hwf.allFields_moveField_perm hsource htarget hindex hafter hbelow
  refine ⟨hwf, hsame, hfields, fun handle => by rw [hextends], ?_, ?_, ?_⟩
  · intro type hlost
    rw [hextends]
    exact ((hlosing _).mp hlost).1
  · intro type hlost
    obtain ⟨hbelow, hout⟩ := (hlosing _).mp hlost
    exact (hperm _ hbelow).2 hout
  · intro type hkept hbelow
    rw [hextends] at hbelow
    refine (hperm _ hbelow).1 ?_
    by_contra hout
    rw [(hlosing _).mpr ⟨hbelow, hout⟩] at hkept
    exact absurd hkept (by simp)

/-- Taking over the fields of the base type loses no field. -/
theorem WellFormed.fieldLost_flatten (hwf : registry.WellFormed) {base : TypeHandle}
    {definition : TypeDefinition} (hbase : registry.DerivesFrom record base)
    (hfound : registry.get? base = some definition)
    (hafter : after = registry.flatten record definition.fields definition.base) (own : Field) :
    FieldLost registry after record own fun _ => false := by
  obtain ⟨hsame, hfields⟩ := hwf.sameButFamily_flatten hbase hfound hafter
  have hagree : AgreeApart registry after record := by
    rw [hafter, flatten_eq_modify]
    exact agreeApart_modify registry record _
  exact ⟨hwf, hsame, fun handle _ => hfields handle, fun _ => hagree.extends_iff,
    fun _ hlosing => absurd hlosing Bool.false_ne_true,
    fun _ hlosing => absurd hlosing Bool.false_ne_true,
    fun type _ _ => .of_eq (hfields type.handle).symm⟩

end Changes

end Registry

namespace Content

open Registry

variable {content : Content} {record source target : TypeHandle} {field : String} {change : Change}

/-- The objects of some types that hold a key that they lose, outermost first; what lies inside a lost
value is lost with it. -/
def objectsLosing (content : Content) (losing : TypeReference → Bool) (name : String) :
    List Site :=
  content.stores.reachedSites content.registry (lostSteps losing name) losing

/-- The stores with the key taken out of each of these objects. -/
def storesWithout (content : Content) (losing : TypeReference → Bool) (name : String) : Stores :=
  content.stores.changedAt content.registry (lostSteps losing name) losing fun _ =>
    Json.without name

/-- What these objects held under the key, and where. -/
def lostBackup (content : Content) (losing : TypeReference → Bool) (name : String) : List Backup :=
  (content.objectsLosing losing name).map fun object =>
    ⟨object.place, some name, object.value.under name⟩

/-- An own field can be deleted. -/
theorem exists_deleteField {own : Field} (hown : own ∈ content.registry.ownFields record) :
    ∃ change, content.deleteField record own.name = .ok change ∧ change.answer = .done := by
  obtain ⟨definition, hfound, hisRecord, -⟩ := get?_of_mem_ownFields hown
  obtain ⟨index, hindex⟩ : ∃ index, (content.registry.ownFields record).findIdx?
      (fun field => field.name = own.name) = some index := by
    rw [← Option.isSome_iff_exists, List.findIdx?_isSome]
    exact List.any_eq_true.mpr ⟨own, hown, decide_eq_true rfl⟩
  obtain ⟨hbound, -, -⟩ := List.findIdx?_eq_some_iff_getElem.mp hindex
  have hfield : content.checkOwnField record own.name =
      .ok (index, (content.registry.ownFields record)[index]) := by
    unfold checkOwnField
    simp only [Legality.checkRecord_eq_ok.mpr ⟨hfound, hisRecord⟩, hindex,
      List.getElem?_eq_getElem hbound, bind, Except.bind]
    rfl
  unfold deleteField
  simp only [hfield, bind, Except.bind]
  exact ⟨_, rfl, rfl⟩

/-- Deleting a field takes its key out of every object of the record, and of what extends it. -/
theorem deleteField_stores (hwf : content.registry.WellFormed) (hconforms : content.Conforms)
    (h : content.deleteField record field = .ok change) :
    let losing := fun type : TypeReference => content.registry.isParentOf record type.handle
    Stores.Same change.content.stores (content.storesWithout losing field) ∧
      ∃ tally, change.Reports tally ∧ tally.backup.Perm (content.lostBackup losing field) := by
  obtain ⟨hrecord, index, own, after, hindex, rfl, hafter, hcontent, hreports⟩ :=
    deleteField_checked h
  obtain ⟨hstores, hbackup⟩ :=
    (hwf.fieldLost_eraseField hrecord hindex hafter).conformRecords hrecord hconforms
  rw [hcontent]
  exact ⟨hstores, _, hreports, hbackup⟩

/-- Moving a field takes its key out of every object of the record that declared it, and of what extends
this record, unless it is an object of the record that declares the field now, or extends that. -/
theorem moveField_stores (hwf : content.registry.WellFormed) (hconforms : content.Conforms)
    (h : content.moveField source field target = .ok change) :
    let losing := fun type : TypeReference => content.registry.isParentOf source type.handle &&
      !content.registry.isParentOf target type.handle
    Stores.Same change.content.stores (content.storesWithout losing field) ∧
      ∃ tally, change.Reports tally ∧ tally.backup.Perm (content.lostBackup losing field) := by
  obtain ⟨hsource, htarget, hderived, index, own, after, hindex, rfl, -, hafter, hcontent,
    hreports⟩ := moveField_checked h
  rw [isStrictAncestor, Bool.and_eq_true, isParentOf_iff] at hderived
  obtain ⟨hstores, hbackup⟩ := (hwf.fieldLost_moveField hsource htarget hderived.2 hindex
    hafter).conformRecords hsource hconforms
  rw [hcontent]
  exact ⟨hstores, _, hreports, hbackup⟩

end Content
end LiveSchema
