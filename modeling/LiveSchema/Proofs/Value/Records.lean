import LiveSchema.Proofs.Schema.WellFormed
import LiveSchema.Proofs.Value.Conformance
import LiveSchema.Proofs.Value.Refit
import LiveSchema.Value.Upkeep

/-!
# Objects that follow their records

When the fields of a record change, the objects of the record and of everything that extends it are
revised, and all other values stay as they are.  This module says when such a revision fits values to
the changed types, and that giving objects exactly the fields they should have is one, except for a
value that is kept under a name whose type has changed.  As the fields that were missing get defaults,
the walk that gives them comes to its end.
-/

namespace LiveSchema

/-- The function on the values of matching types; other values stay as they are. -/
def whereConcerned (concerned : TypeReference → Bool) (f : TypeReference → Json → Json)
    (type : TypeReference) (value : Json) : Json :=
  if concerned type then f type value else value

/-- The function on the entries of objects; other values stay as they are. -/
def onObjects (g : TypeHandle → Entries → Entries) (type : TypeReference) : Json → Json
  | .object entries => .object (g type.handle entries)
  | value => value

namespace Registry

variable {before after : Registry} {record : TypeHandle} {g : TypeHandle → Entries → Entries}
  {doubt : TypeReference → Json → TypeReference → Json → Prop}
  {property : TypeReference → Json → Prop}

/-- Revises the objects of a record and of everything that extends it. -/
def reviseFamily (registry : Registry) (record : TypeHandle)
    (g : TypeHandle → Entries → Entries) : TypeReference → Json → Json :=
  whereConcerned (fun type => registry.isParentOf record type.handle) (onObjects g)

theorem reviseFamily_of_not_extends {reference : TypeReference}
    (hout : ¬ after.Extends reference.handle record) (value : Json) :
    after.reviseFamily record g reference value = value := by
  rw [reviseFamily, whereConcerned, if_neg]
  rwa [isParentOf_iff]

theorem reviseFamily_of_extends {reference : TypeReference}
    (hextends : after.Extends reference.handle record) (entries : Entries) :
    after.reviseFamily record g reference (.object entries) =
      .object (g reference.handle entries) := by
  rw [reviseFamily, whereConcerned, if_pos]
  · rfl
  · exact (isParentOf_iff _ _).mpr hextends

/-- Two registries of which the second has other fields in the family of a record. -/
structure SameButFamily (before after : Registry) (record : TypeHandle) : Prop where
  wellFormed : after.WellFormed
  /-- Everything outside the family looks as before. -/
  alike : ∀ handle, ¬ after.Extends handle record → Alike before after handle
  /-- The family consists of records, before and after. -/
  kinds : ∀ handle, after.Extends handle record →
    before.kind? handle = some .record ∧ after.kind? handle = some .record

/-- A revision of the objects of a family fits values to the changed fields if it does so with the
entries of each object. -/
theorem SameButFamily.refits (hsame : SameButFamily before after record)
    (hkeeps : ∀ reference entries, after.Extends reference.handle record →
      after.conforms reference (.object entries) = true →
        after.conforms reference (.object (g reference.handle entries)) = true)
    (hnew : ∀ reference entries, after.Extends reference.handle record →
      before.conforms reference (.object entries) = true →
        (g reference.handle entries).length = (after.slots reference.handle).length ∧
          ∀ name type, (name, type) ∈ after.slots reference.handle →
            ∃ inner, Entries.value? (g reference.handle entries) name = some inner ∧
              (after.conforms type inner = true ∨
                before.Inside reference (.object entries) type inner ∨
                  doubt reference (.object (g reference.handle entries)) type inner))
    (hsettle : ∀ reference value type inner (answer : TypeReference → Json → Json),
      doubt reference value type inner →
        property reference ((after.parts reference value).mapChildren answer value) →
          after.conforms type (answer type inner) = true) :
    Refits before after (after.reviseFamily record g) doubt property := by
  have hobject : ∀ reference value, after.Extends reference.handle record →
      before.conforms reference value = true → ∃ entries, value = .object entries :=
    fun reference value hextends hconforms =>
      exists_object_of_outerFits (hsame.kinds _ hextends).1 (conforms_iff.mp hconforms).1
  refine ⟨hsame.wellFormed.names, ?_, ?_, ?_, hsettle⟩
  · intro reference value hconforms
    by_cases hextends : after.Extends reference.handle record
    · obtain ⟨entries, rfl⟩ := exists_object_of_outerFits (hsame.kinds _ hextends).2
        (conforms_iff.mp hconforms).1
      rw [reviseFamily_of_extends hextends]
      exact hkeeps reference entries hextends hconforms
    · rwa [reviseFamily_of_not_extends hextends]
  · intro reference value hconforms
    by_cases hextends : after.Extends reference.handle record
    · obtain ⟨entries, rfl⟩ := hobject reference value hextends hconforms
      obtain ⟨hlength, hslots⟩ := hnew reference entries hextends hconforms
      rw [reviseFamily_of_extends hextends,
        outerFits_record_iff (hsame.kinds _ hextends).2]
      refine ⟨hlength, fun name type hslot => ?_⟩
      obtain ⟨inner, hinner, -⟩ := hslots name type hslot
      exact ⟨inner, hinner⟩
    · rw [reviseFamily_of_not_extends hextends]
      exact (hsame.alike _ hextends).outerFits (conforms_iff.mp hconforms).1
  · intro reference value type inner hconforms hinside
    by_cases hextends : after.Extends reference.handle record
    · obtain ⟨entries, rfl⟩ := hobject reference value hextends hconforms
      obtain ⟨-, hslots⟩ := hnew reference entries hextends hconforms
      rw [reviseFamily_of_extends hextends] at hinside ⊢
      obtain ⟨name, hslot, hvalue⟩ := (inside_record_iff (hsame.kinds _ hextends).2).mp hinside
      obtain ⟨found, hfound, hcases⟩ := hslots name type hslot
      obtain rfl := Option.some.inj (hvalue.symm.trans hfound)
      exact hcases
    · rw [reviseFamily_of_not_extends hextends] at hinside
      exact Or.inr (Or.inl ((hsame.alike _ hextends).symm.inside hinside))

/-! ## Objects that conform -/

theorem keys_nodup_of_conforms {registry : Registry} {reference : TypeReference}
    {entries : Entries} (hkind : registry.kind? reference.handle = some .record)
    (hnames : (registry.allFieldNames reference.handle).Nodup)
    (h : registry.conforms reference (.object entries) = true) :
    (Entries.keys entries).Perm (registry.allFieldNames reference.handle) := by
  obtain ⟨hlength, hslots⟩ := (conforms_object_iff hkind).mp h
  -- every name is a key, and there are as many keys as names
  have hsubset : registry.allFieldNames reference.handle ⊆ Entries.keys entries := by
    intro name hname
    obtain ⟨field, hfield, rfl⟩ := List.mem_map.mp hname
    obtain ⟨inner, hinner, -⟩ :=
      hslots field.name field.type (mem_slots_iff.mpr ⟨field, hfield, rfl, rfl⟩)
    exact Entries.exists_value?_iff.mp ⟨inner, hinner⟩
  refine ((hnames.subperm hsubset).perm_of_length_le ?_).symm
  simp only [Entries.keys, List.length_map, hlength, slots, allFieldNames]
  exact Nat.le_refl _

theorem WellFormed.keys_nodup {registry : Registry} (hwf : registry.WellFormed)
    {reference : TypeReference} {entries : Entries}
    (hkind : registry.kind? reference.handle = some .record)
    (h : registry.conforms reference (.object entries) = true) : (Entries.keys entries).Nodup :=
  (keys_nodup_of_conforms hkind (hwf.names _) h).nodup_iff.mpr (hwf.names _)

theorem WellFormed.slot_unique {registry : Registry} (hwf : registry.WellFormed)
    {handle : TypeHandle} {name : String} {type other : TypeReference}
    (h : (name, type) ∈ registry.slots handle) (hother : (name, other) ∈ registry.slots handle) :
    type = other := by
  obtain ⟨first, hfirst, rfl, rfl⟩ := mem_slots_iff.mp h
  obtain ⟨second, hsecond, hname, rfl⟩ := mem_slots_iff.mp hother
  rw [List.inj_on_of_nodup_map (hwf.names handle) hsecond hfirst hname]

/-! ## Exactly the fields that a record should have -/

/-- The record has an effective field of the name, which had another type before. -/
def Retyped (before after : Registry) (handle : TypeHandle) (name : String)
    (type : TypeReference) : Prop :=
  (name, type) ∈ after.slots handle ∧ ∃ old, (name, old) ∈ before.slots handle ∧ old ≠ type

/-- Each field of the object whose type has changed holds a value that conforms to the new type. -/
def RetypedFit (before after : Registry) (record : TypeHandle) (reference : TypeReference)
    (value : Json) : Prop :=
  after.Extends reference.handle record → ∀ entries, value = .object entries →
    ∀ name type inner, Retyped before after reference.handle name type →
      Entries.value? entries name = some inner → after.conforms type inner = true

/-- The entries of an object with exactly the fields of its record. -/
def conformed (registry : Registry) (handle : TypeHandle) (entries : Entries) : Entries :=
  (registry.conform handle entries).1

theorem WellFormed.value?_conformed (hafter : after.WellFormed) {handle : TypeHandle}
    {entries : Entries} (hkeys : (Entries.keys entries).Nodup) {name : String}
    {type : TypeReference} (hslot : (name, type) ∈ after.slots handle) :
    Entries.value? (after.conformed handle entries) name =
      some ((Entries.value? entries name).getD (after.defaultValue type)) := by
  obtain ⟨field, hfield, rfl, rfl⟩ := mem_slots_iff.mp hslot
  rw [conformed, conform_fst hkeys (hafter.names handle),
    Field.value?_entriesOf (hafter.names handle) hfield]

theorem WellFormed.keys_conformed (hafter : after.WellFormed) {handle : TypeHandle}
    {entries : Entries} (hkeys : (Entries.keys entries).Nodup) :
    Entries.keys (after.conformed handle entries) = after.allFieldNames handle := by
  rw [conformed, conform_fst hkeys (hafter.names handle), Field.keys_entriesOf, allFieldNames]

theorem WellFormed.length_conformed (hafter : after.WellFormed) {handle : TypeHandle}
    {entries : Entries} (hkeys : (Entries.keys entries).Nodup) :
    (after.conformed handle entries).length = (after.slots handle).length := by
  rw [conformed, conform_fst hkeys (hafter.names handle)]
  simp [Field.entriesOf, slots]

/-- Giving objects exactly the fields they should have fits them to the changed fields, except where a
value is kept under a name whose type has changed. -/
theorem SameButFamily.refits_conformed (hsame : SameButFamily before after record)
    (hbefore : before.WellFormed) :
    Refits before after (after.reviseFamily record after.conformed)
      (fun reference value type inner => after.Extends reference.handle record ∧
        ∃ entries name, value = .object entries ∧
          Retyped before after reference.handle name type ∧
            Entries.value? entries name = some inner)
      (RetypedFit before after record) := by
  have hafter := hsame.wellFormed
  refine hsame.refits ?_ ?_ ?_
  · intro reference entries hextends hconforms
    have hkind := (hsame.kinds _ hextends).2
    have hkeys := hafter.keys_nodup hkind hconforms
    obtain ⟨-, hslots⟩ := (conforms_object_iff hkind).mp hconforms
    refine (conforms_object_iff hkind).mpr
      ⟨hafter.length_conformed hkeys, fun name type hslot => ?_⟩
    obtain ⟨inner, hinner, hfits⟩ := hslots name type hslot
    exact ⟨inner, by rw [hafter.value?_conformed hkeys hslot, hinner, Option.getD_some], hfits⟩
  · intro reference entries hextends hconforms
    obtain ⟨hbeforeKind, -⟩ := hsame.kinds _ hextends
    have hkeys := hbefore.keys_nodup hbeforeKind hconforms
    refine ⟨hafter.length_conformed hkeys, fun name type hslot => ?_⟩
    refine ⟨_, hafter.value?_conformed hkeys hslot, ?_⟩
    cases hvalue : Entries.value? entries name with
    | none =>
        rw [Option.getD_none]
        obtain ⟨field, hfield, -, rfl⟩ := mem_slots_iff.mp hslot
        exact Or.inl (hafter.conforms_defaultValue
          (legal_of_mem_allFields hafter.toFormed hfield))
    | some inner =>
        rw [Option.getD_some]
        -- the key belongs to a field that was there before
        have hkey : name ∈ before.allFieldNames reference.handle :=
          (keys_nodup_of_conforms hbeforeKind (hbefore.names _) hconforms).mem_iff.mp
            (Entries.exists_value?_iff.mp ⟨inner, hvalue⟩)
        obtain ⟨field, hfield, rfl⟩ := List.mem_map.mp hkey
        have hold : (field.name, field.type) ∈ before.slots reference.handle :=
          mem_slots_iff.mpr ⟨field, hfield, rfl, rfl⟩
        by_cases htype : field.type = type
        · exact Or.inr (Or.inl ((inside_record_iff hbeforeKind).mpr
            ⟨field.name, htype ▸ hold, hvalue⟩))
        · refine Or.inr (Or.inr ⟨hextends, _, field.name, rfl, ⟨hslot, field.type, hold, htype⟩, ?_⟩)
          rw [hafter.value?_conformed hkeys hslot, hvalue, Option.getD_some]
  · rintro reference value type inner answer ⟨hextends, entries, name, rfl, hretyped, hvalue⟩ hfit
    obtain ⟨definition, held, hfound, hbody⟩ :=
      exists_record_of_kind? (hsame.kinds _ hextends).2
    obtain ⟨field, hfield, rfl, rfl⟩ := mem_slots_iff.mp hretyped.1
    have hparts : after.parts reference (.object entries) =
        .fields (after.allFields reference.handle) entries := by
      simp [parts, hfound, hbody]
    rw [hparts] at hfit
    refine hfit hextends _ rfl field.name field.type (answer field.type inner) hretyped ?_
    rw [Parts.value?_mapFields (hafter.names _) hfield, hvalue, Option.map_some]

/-! ## The walk that fits objects to their records -/

/-- An object that is given its fields holds what it held before, and defaults. -/
theorem mem_conformFields {registry : Registry} {done previous : Entries} {fields : List Field}
    {entry : String × Json} (h : entry ∈ (registry.conformFields done previous fields).1) :
    entry ∈ done ∨ entry ∈ previous ∨
      ∃ field ∈ fields, entry = (field.name, registry.defaultValue field.type) := by
  induction fields generalizing done previous with
  | nil => exact Or.inl h
  | cons field rest ih =>
      rw [conformFields] at h
      cases hextract : Entries.extract? field.name previous with
      | none =>
          rw [hextract] at h
          rcases ih h with hdone | hprevious | ⟨other, hother, hsame⟩
          · rcases Entries.mem_assign hdone with rfl | hdone
            · exact Or.inr (Or.inr ⟨field, List.mem_cons_self, rfl⟩)
            · exact Or.inl hdone
          · exact Or.inr (Or.inl hprevious)
          · exact Or.inr (Or.inr ⟨other, List.mem_cons_of_mem _ hother, hsame⟩)
      | some found =>
          obtain ⟨value, remaining⟩ := found
          rw [hextract] at h
          have hperm := Entries.extract?_perm hextract
          rcases ih h with hdone | hremaining | ⟨other, hother, hsame⟩
          · rcases Entries.mem_assign hdone with rfl | hdone
            · exact Or.inr (Or.inl (hperm.mem_iff.mpr List.mem_cons_self))
            · exact Or.inl hdone
          · exact Or.inr (Or.inl (hperm.mem_iff.mpr (List.mem_cons_of_mem _ hremaining)))
          · exact Or.inr (Or.inr ⟨other, List.mem_cons_of_mem _ hother, hsame⟩)

/-- A value is left alone unless it is an object of the family. -/
theorem reviseFamily_cases (after : Registry) (record : TypeHandle)
    (g : TypeHandle → Entries → Entries) (reference : TypeReference) (value : Json) :
    after.reviseFamily record g reference value = value ∨
      ∃ entries, value = .object entries ∧ after.Extends reference.handle record ∧
        after.reviseFamily record g reference value = .object (g reference.handle entries) := by
  by_cases hextends : after.Extends reference.handle record
  · cases value with
    | object entries => exact Or.inr ⟨entries, rfl, hextends, reviseFamily_of_extends hextends entries⟩
    | _ =>
        refine Or.inl ?_
        rw [reviseFamily, whereConcerned]
        split <;> rfl
  · exact Or.inl (reviseFamily_of_not_extends hextends value)

/-- An object of the family is given defaults only, which conform; and one that conforms is given
nothing. -/
theorem WellFormed.subsides_conformed (hafter : after.WellFormed)
    (hkinds : ∀ handle, after.Extends handle record → after.kind? handle = some .record) :
    Subsides after (after.reviseFamily record after.conformed) after.defaultDepth
      fun type inner => after.conforms type inner = true := by
  refine ⟨fun reference value type inner hinside => ?_,
    fun reference value type inner hconforms hinside => ?_⟩
  · rcases after.reviseFamily_cases record after.conformed reference value with
      hsame | ⟨entries, rfl, hextends, hrevised⟩
    · rw [hsame] at hinside
      exact Or.inl hinside.depth.1
    · rw [hrevised] at hinside
      obtain ⟨name, hslot, hvalue⟩ := (inside_record_iff (hkinds _ hextends)).mp hinside
      rcases mem_conformFields (Entries.mem_of_value? hvalue) with
        hdone | hold | ⟨field, hfield, hsame⟩
      · exact absurd hdone List.not_mem_nil
      · exact Or.inl (Or.inl (Json.depth_lt_of_mem_inner (List.mem_map_of_mem hold)))
      · obtain ⟨rfl, rfl⟩ := Prod.mk.inj hsame
        obtain rfl := hafter.slot_unique hslot (mem_slots_iff.mpr ⟨field, hfield, rfl, rfl⟩)
        exact Or.inr ⟨hafter.conforms_defaultValue (legal_of_mem_allFields hafter.toFormed hfield),
          depth_defaultValue_le hfield, Nat.succ_pos _⟩
  · -- what lies inside lay there before
    suffices hbefore : after.Inside reference value type inner from
      ⟨hbefore.conforms hconforms, hbefore.depth.1⟩
    rcases after.reviseFamily_cases record after.conformed reference value with
      hsame | ⟨entries, rfl, hextends, hrevised⟩
    · rwa [hsame] at hinside
    · have hkind := hkinds _ hextends
      rw [hrevised] at hinside
      obtain ⟨name, hslot, hvalue⟩ := (inside_record_iff hkind).mp hinside
      obtain ⟨-, hslots⟩ := (conforms_object_iff hkind).mp hconforms
      obtain ⟨held, hheld, -⟩ := hslots name type hslot
      rw [hafter.value?_conformed (hafter.keys_nodup hkind hconforms) hslot, hheld,
        Option.getD_some] at hvalue
      obtain rfl := Option.some.inj hvalue
      exact (inside_record_iff hkind).mpr ⟨name, hslot, hheld⟩

end Registry
end LiveSchema
