import LiveSchema.Proofs.Mutation.Family

/-!
# Objects of a record with a changed field

Renaming an own field moves the stored value to the new name, and giving it another type converts the
stored value.  Either leaves the other effective fields of the record, and of everything that extends
it, as they are.
-/

namespace LiveSchema
namespace Registry

variable {registry after : Registry} {record handle : TypeHandle} {index : Nat} {own : Field}

/-! ## Slots -/

/-- The effective fields of the family around an own field. -/
theorem WellFormed.allFields_modifyField (hwf : registry.WellFormed) (f : Field → Field)
    (hrecord : registry.IsRecord record)
    (hindex : (registry.ownFields record)[index]? = some own)
    (hextends : registry.Extends handle record) :
    ∃ above below, registry.allFields handle = above ++ own :: below ∧
      (registry.modifyFields record fun fields => fields.modify index f).allFields handle =
        above ++ f own :: below := by
  obtain ⟨above, below, hold, hnew⟩ :=
    hwf.allFields_modifyFields (fun fields => fields.modify index f) hrecord hextends
  obtain ⟨before, behind, hown, hmodify, -⟩ := exists_split_at hindex
  refine ⟨above ++ before, behind ++ below, ?_, ?_⟩
  · rw [hold, hown]
    simp
  · rw [hnew, hmodify]
    simp

/-- Where an own field changes, its slot is exchanged among the slots of the family. -/
theorem WellFormed.slots_modifyField (hwf : registry.WellFormed) (f : Field → Field)
    (hrecord : registry.IsRecord record)
    (hindex : (registry.ownFields record)[index]? = some own)
    (hextends : registry.Extends handle record) :
    ∃ others, (registry.slots handle).Perm ((own.name, own.type) :: others) ∧
      ((registry.modifyFields record fun fields => fields.modify index f).slots handle).Perm
        (((f own).name, (f own).type) :: others) := by
  obtain ⟨above, below, hold, hnew⟩ := hwf.allFields_modifyField f hrecord hindex hextends
  refine ⟨(above ++ below).map fun field => (field.name, field.type), ?_, ?_⟩
  · rw [slots, hold]
    exact List.perm_middle.map _
  · rw [slots, hnew]
    exact List.perm_middle.map _

/-- The slots of the family before and after the change of an own field. -/
theorem WellFormed.exists_slots (hwf : registry.WellFormed) {f : Field → Field}
    (hrecord : registry.IsRecord record)
    (hindex : (registry.ownFields record)[index]? = some own)
    (hafter : after = registry.modifyFields record fun fields => fields.modify index f)
    (hextends : after.Extends handle record) :
    ∃ others, (registry.slots handle).Perm ((own.name, own.type) :: others) ∧
      (after.slots handle).Perm (((f own).name, (f own).type) :: others) := by
  rw [hafter, extends_modifyFields] at hextends
  rw [hafter]
  exact hwf.slots_modifyField f hrecord hindex hextends

theorem map_fst_slots (registry : Registry) (handle : TypeHandle) :
    (registry.slots handle).map Prod.fst = registry.allFieldNames handle := by
  rw [slots, allFieldNames, List.map_map]
  rfl

/-- No other slot has the name of a slot. -/
theorem WellFormed.slot_name_fresh (hwf : registry.WellFormed) {name : String}
    {type : TypeReference} {others : List (String × TypeReference)}
    (hperm : (registry.slots handle).Perm ((name, type) :: others)) :
    name ∉ others.map Prod.fst := by
  have hnodup := hwf.names handle
  rw [← map_fst_slots] at hnodup
  exact (List.nodup_cons.mp ((hperm.map Prod.fst).nodup_iff.mp hnodup)).1

/-- The keys of an object that conforms are the names of the slots. -/
theorem WellFormed.mem_keys_iff (hwf : registry.WellFormed) {reference : TypeReference}
    {entries : Entries} {slot : String × TypeReference} {others : List (String × TypeReference)}
    (hkind : registry.kind? reference.handle = some .record)
    (hperm : (registry.slots reference.handle).Perm (slot :: others))
    (h : registry.conforms reference (.object entries) = true) (key : String) :
    key ∈ Entries.keys entries ↔ key = slot.1 ∨ key ∈ others.map Prod.fst := by
  rw [(keys_nodup_of_conforms hkind (hwf.names _) h).mem_iff, ← map_fst_slots,
    (hperm.map Prod.fst).mem_iff, List.map_cons, List.mem_cons]

/-! ## New entries -/

/-- New entries are what the fields call for after a change: under the name of each there is a value
that conforms or lay in the object before, and there is nothing else. -/
def Refills (before after : Registry) (reference : TypeReference) (entries new : Entries) : Prop :=
  new.length = (after.slots reference.handle).length ∧
    ∀ name type, (name, type) ∈ after.slots reference.handle →
      ∃ inner, Entries.value? new name = some inner ∧
        (after.conforms type inner = true ∨
          before.Inside reference (.object entries) type inner)

theorem SameButFamily.refits_of_refills {g : TypeHandle → Entries → Entries}
    (hsame : SameButFamily registry after record)
    (hkeeps : ∀ reference entries, after.Extends reference.handle record →
      after.conforms reference (.object entries) = true →
        after.conforms reference (.object (g reference.handle entries)) = true)
    (hrefills : ∀ reference entries, after.Extends reference.handle record →
      registry.conforms reference (.object entries) = true →
        Refills registry after reference entries (g reference.handle entries)) :
    Refits registry after (after.reviseFamily record g) (fun _ _ _ _ => False)
      fun _ _ => True := by
  refine hsame.refits hkeeps (fun reference entries hextends hconforms => ?_)
    fun _ _ _ _ _ hfalse _ => hfalse.elim
  obtain ⟨hlength, hslots⟩ := hrefills reference entries hextends hconforms
  refine ⟨hlength, fun name type hslot => ?_⟩
  obtain ⟨inner, hinner, hcases⟩ := hslots name type hslot
  exact ⟨inner, hinner, hcases.imp_right Or.inl⟩

/-- What a slot of an object holds lies inside it. -/
theorem exists_inside_of_slot {reference : TypeReference} {entries : Entries}
    {slots : List (String × TypeReference)} {name : String} {type : TypeReference}
    (hkind : registry.kind? reference.handle = some .record)
    (hperm : (registry.slots reference.handle).Perm slots)
    (hconforms : registry.conforms reference (.object entries) = true)
    (hslot : (name, type) ∈ slots) :
    ∃ inner, Entries.value? entries name = some inner ∧
      registry.Inside reference (.object entries) type inner := by
  rw [← hperm.mem_iff] at hslot
  obtain ⟨-, hvalues⟩ := (conforms_object_iff hkind).mp hconforms
  obtain ⟨inner, hinner, -⟩ := hvalues name type hslot
  exact ⟨inner, hinner, (inside_record_iff hkind).mpr ⟨name, hslot, hinner⟩⟩

/-! ## Renaming -/

section Rename

variable {target : String} {reference : TypeReference} {entries : Entries}
  {others : List (String × TypeReference)}

/-- An object that conforms after the renaming already does not have the former name, unless the name
stays. -/
theorem WellFormed.renameKey_of_conforms (hwf : registry.WellFormed) (hwfAfter : after.WellFormed)
    (hkind : after.kind? reference.handle = some .record)
    (hold : (registry.slots reference.handle).Perm ((own.name, own.type) :: others))
    (hnew : (after.slots reference.handle).Perm ((target, own.type) :: others))
    (hconforms : after.conforms reference (.object entries) = true) :
    Entries.renameKey entries own.name target = entries := by
  have hfresh := hwf.slot_name_fresh hold
  refine Entries.renameKey_of_unchanged (hwfAfter.keys_nodup hkind hconforms) fun key hkey => ?_
  rw [hwfAfter.mem_keys_iff hkind hnew hconforms] at hkey
  unfold Entries.renamed
  split
  next hsource =>
      rcases hkey with rfl | hkey
      · rfl
      · exact absurd (hsource ▸ hkey) hfresh
  next => rfl

/-- The renaming moves the value under the former name, and everything else stays where it is. -/
theorem WellFormed.refills_renameKey (hwf : registry.WellFormed) (hwfAfter : after.WellFormed)
    (hkind : registry.kind? reference.handle = some .record)
    (hold : (registry.slots reference.handle).Perm ((own.name, own.type) :: others))
    (hnew : (after.slots reference.handle).Perm ((target, own.type) :: others))
    (hconforms : registry.conforms reference (.object entries) = true) :
    Refills registry after reference entries (Entries.renameKey entries own.name target) := by
  have hkeys := hwf.keys_nodup hkind hconforms
  have hsource := hwf.slot_name_fresh hold
  have htarget := hwfAfter.slot_name_fresh hnew
  obtain ⟨hlength, -⟩ := (conforms_object_iff hkind).mp hconforms
  have hheld : ∀ name type, (name, type) ∈ (own.name, own.type) :: others →
      ∃ inner, Entries.value? entries name = some inner ∧
        registry.Inside reference (.object entries) type inner := fun _ _ =>
    exists_inside_of_slot hkind hold hconforms
  by_cases hsameName : target = own.name
  · rw [hsameName] at hnew ⊢
    rw [Entries.renameKey_of_unchanged hkeys fun key _ => by
      unfold Entries.renamed
      split
      next h => exact h.symm
      next => rfl]
    refine ⟨?_, fun name type hslot => ?_⟩
    · rw [hlength, hold.length_eq, hnew.length_eq]
    · obtain ⟨inner, hinner, hinside⟩ := hheld name type (hnew.mem_iff.mp hslot)
      exact ⟨inner, hinner, Or.inr hinside⟩
  · have hfree : target ∉ Entries.keys entries := by
      rw [hwf.mem_keys_iff hkind hold hconforms]
      exact not_or.mpr ⟨hsameName, htarget⟩
    rw [Entries.renameKey_eq_map hkeys (Or.inr hfree)]
    refine ⟨?_, fun name type hslot => ?_⟩
    · rw [List.length_map, hlength, hold.length_eq, hnew.length_eq, List.length_cons,
        List.length_cons]
    · rcases List.mem_cons.mp (hnew.mem_iff.mp hslot) with hfirst | hother
      · obtain ⟨rfl, rfl⟩ := Prod.mk.inj hfirst
        obtain ⟨inner, hinner, hinside⟩ := hheld own.name own.type List.mem_cons_self
        refine ⟨inner, ?_, Or.inr hinside⟩
        rw [Entries.value?_map_renamed hfree hsameName, if_pos rfl, hinner]
      · have hname : name ∈ others.map Prod.fst := List.mem_map_of_mem (f := Prod.fst) hother
        have hneSource : name ≠ own.name := fun h => hsource (h ▸ hname)
        have hneTarget : name ≠ target := fun h => htarget (h ▸ hname)
        obtain ⟨inner, hinner, hinside⟩ := hheld name type (List.mem_cons_of_mem _ hother)
        refine ⟨inner, ?_, Or.inr hinside⟩
        rw [Entries.value?_map_renamed hfree hneSource, if_neg hneTarget, hinner]

theorem WellFormed.refits_renameField (hwf : registry.WellFormed)
    (hrecord : registry.IsRecord record)
    (hindex : (registry.ownFields record)[index]? = some own)
    (hafter : after = registry.modifyFields record fun fields =>
      fields.modify index fun own => { own with name := target })
    (hwfAfter : after.WellFormed) :
    Refits registry after
      (after.reviseFamily record fun _ entries => Entries.renameKey entries own.name target)
      (fun _ _ _ _ => False) fun _ _ => True := by
  have hsame : SameButFamily registry after record := by
    rw [hafter]
    exact hwf.sameButFamily_modifyFields _ hrecord (hafter ▸ hwfAfter)
  refine hsame.refits_of_refills ?_ ?_
  · intro reference entries hextends hconforms
    obtain ⟨others, hold, hnew⟩ := hwf.exists_slots hrecord hindex hafter hextends
    have hkind := (hsame.kinds _ hextends).2
    rwa [hwf.renameKey_of_conforms hwfAfter hkind hold hnew hconforms]
  · intro reference entries hextends hconforms
    obtain ⟨others, hold, hnew⟩ := hwf.exists_slots hrecord hindex hafter hextends
    exact hwf.refills_renameKey hwfAfter (hsame.kinds _ hextends).1 hold hnew hconforms

end Rename

/-! ## Another type -/

section Retype

variable {target : TypeReference} {reference : TypeReference} {entries : Entries}
  {others : List (String × TypeReference)}

/-- What a conversion answers conforms, unless it leaves the value as it is. -/
theorem WellFormed.convert_cases (hwf : registry.WellFormed) (hlegal : registry.Legal target)
    (source : TypeReference) (value : Json) :
    source = target ∧ registry.convert source target value = value ∨
      registry.conforms target (registry.convert source target value) = true := by
  by_cases hsame : source = target
  · exact Or.inl ⟨hsame, by rw [convert, if_pos hsame]⟩
  · exact Or.inr (hwf.conforms_convert hlegal hsame value)

theorem WellFormed.conforms_convertedEntries (hwfAfter : after.WellFormed)
    (hkind : after.kind? reference.handle = some .record) (hlegal : after.Legal target)
    (hnew : (after.slots reference.handle).Perm ((own.name, target) :: others))
    (hconforms : after.conforms reference (.object entries) = true) :
    after.conforms reference
      (.object (Stores.convertedEntries after own.name own.type target entries)) = true := by
  have hkey := (hwfAfter.mem_keys_iff hkind hnew hconforms own.name).mpr (Or.inl rfl)
  obtain ⟨hlength, hvalues⟩ := (conforms_object_iff hkind).mp hconforms
  refine (conforms_object_iff hkind).mpr ⟨?_, fun name type hslot => ?_⟩
  · rw [Stores.convertedEntries, Entries.length_assign_of_mem hkey, hlength]
  · rw [Stores.convertedEntries, Entries.value?_assign]
    obtain ⟨inner, hinner, hfits⟩ := hvalues name type hslot
    split
    next hname =>
        subst hname
        obtain rfl := hwfAfter.slot_unique hslot (hnew.mem_iff.mpr List.mem_cons_self)
        rw [hinner, Option.getD_some]
        refine ⟨_, rfl, ?_⟩
        rcases hwfAfter.convert_cases hlegal own.type inner with ⟨-, hkept⟩ | hconverted
        · rwa [hkept]
        · exact hconverted
    next => exact ⟨inner, hinner, hfits⟩

/-- The conversion answers the value under the name of the field, and everything else stays. -/
theorem WellFormed.refills_convertedEntries (hwf : registry.WellFormed)
    (hwfAfter : after.WellFormed) (hkind : registry.kind? reference.handle = some .record)
    (hlegal : after.Legal target)
    (hold : (registry.slots reference.handle).Perm ((own.name, own.type) :: others))
    (hnew : (after.slots reference.handle).Perm ((own.name, target) :: others))
    (hconforms : registry.conforms reference (.object entries) = true) :
    Refills registry after reference entries
      (Stores.convertedEntries after own.name own.type target entries) := by
  have hkey := (hwf.mem_keys_iff hkind hold hconforms own.name).mpr (Or.inl rfl)
  obtain ⟨hlength, -⟩ := (conforms_object_iff hkind).mp hconforms
  refine ⟨?_, fun name type hslot => ?_⟩
  · rw [Stores.convertedEntries, Entries.length_assign_of_mem hkey, hlength, hold.length_eq,
      hnew.length_eq, List.length_cons, List.length_cons]
  · rw [Stores.convertedEntries, Entries.value?_assign]
    rcases List.mem_cons.mp (hnew.mem_iff.mp hslot) with hfirst | hother
    · obtain ⟨rfl, rfl⟩ := Prod.mk.inj hfirst
      obtain ⟨inner, hinner, hinside⟩ :=
        exists_inside_of_slot hkind hold hconforms List.mem_cons_self
      rw [if_pos rfl, hinner, Option.getD_some]
      refine ⟨_, rfl, ?_⟩
      rcases hwfAfter.convert_cases hlegal own.type inner with ⟨hsame, hkept⟩ | hconverted
      · rw [hkept, ← hsame]
        exact Or.inr hinside
      · exact Or.inl hconverted
    · have hne : own.name ≠ name := fun h =>
        hwf.slot_name_fresh hold (h ▸ List.mem_map_of_mem (f := Prod.fst) hother)
      obtain ⟨inner, hinner, hinside⟩ :=
        exists_inside_of_slot hkind hold hconforms (List.mem_cons_of_mem _ hother)
      rw [if_neg hne]
      exact ⟨inner, hinner, Or.inr hinside⟩

theorem WellFormed.refits_convertField (hwf : registry.WellFormed)
    (hrecord : registry.IsRecord record)
    (hindex : (registry.ownFields record)[index]? = some own)
    (hafter : after = registry.modifyFields record fun fields =>
      fields.modify index fun own => { own with type := target })
    (hwfAfter : after.WellFormed) :
    Refits registry after
      (after.reviseFamily record fun _ =>
        Stores.convertedEntries after own.name own.type target)
      (fun _ _ _ _ => False) fun _ _ => True := by
  have hsame : SameButFamily registry after record := by
    rw [hafter]
    exact hwf.sameButFamily_modifyFields _ hrecord (hafter ▸ hwfAfter)
  have hlegal : ∀ {handle others}, (after.slots handle).Perm ((own.name, target) :: others) →
      after.Legal target := by
    intro handle others hnew
    obtain ⟨field, hfield, -, rfl⟩ := mem_slots_iff.mp (hnew.mem_iff.mpr List.mem_cons_self)
    exact legal_of_mem_allFields hwfAfter.toFormed hfield
  refine hsame.refits_of_refills ?_ ?_
  · intro reference entries hextends hconforms
    obtain ⟨others, -, hnew⟩ := hwf.exists_slots hrecord hindex hafter hextends
    exact hwfAfter.conforms_convertedEntries (hsame.kinds _ hextends).2 (hlegal hnew) hnew hconforms
  · intro reference entries hextends hconforms
    obtain ⟨others, hold, hnew⟩ := hwf.exists_slots hrecord hindex hafter hextends
    exact hwf.refills_convertedEntries hwfAfter (hsame.kinds _ hextends).1 (hlegal hnew) hold hnew
      hconforms

end Retype

end Registry
end LiveSchema
