import LiveSchema.Proofs.Mutation.OwnField
import LiveSchema.Proofs.Mutation.Revision
import LiveSchema.Proofs.Value.Fresh
import LiveSchema.Proofs.Value.Rewrite

/-!
# Families whose objects get other keys

Where the fields of a family get other names or new fields are added to them, and the objects of the
family get other keys and new ones accordingly, every stored value becomes what rewriting it makes of
it: each object of the family is given the other keys, and keeps what it holds.
-/

namespace LiveSchema

namespace Registry

/-- Gives the objects of a family other keys, and further ones. -/
def reshapeFamily (registry : Registry) (record : TypeHandle) (ρ : String → String)
    (added : Entries) : TypeReference → Json → Json :=
  whereConcerned (fun type => registry.isParentOf record type.handle) fun _ =>
    Json.reshape ρ added

section Family

variable {registry : Registry} {record : TypeHandle} {reference : TypeReference}

theorem reshapeFamily_of_extends (hextends : registry.Extends reference.handle record)
    (ρ : String → String) (added entries : Entries) :
    registry.reshapeFamily record ρ added reference (.object entries) =
      .object (Entries.reshape ρ added entries) := by
  rw [reshapeFamily, whereConcerned, if_pos ((isParentOf_iff _ _).mpr hextends)]
  rfl

theorem reshapeFamily_of_not_extends (hout : ¬ registry.Extends reference.handle record)
    (ρ : String → String) (added : Entries) (value : Json) :
    registry.reshapeFamily record ρ added reference value = value := by
  rw [reshapeFamily, whereConcerned, if_neg]
  rwa [isParentOf_iff]

end Family

/-- The fields of a family get other names, and new fields are added to them; the step of a migration
gives each object of the family the keys that belong to these. -/
structure Reshapes (strict : Prop) (before after : Registry) (record : TypeHandle)
    (g : TypeHandle → Entries → Entries) (ρ : String → String) (new : List Field) : Prop where
  wellFormed : before.WellFormed
  same : SameButFamily before after record
  outside : ∀ handle, ¬ after.Extends handle record →
    after.allFields handle = before.allFields handle
  family : ∀ handle, after.Extends handle record ↔ before.Extends handle record
  fields : ∀ handle, after.Extends handle record →
    (after.allFields handle).Perm ((before.allFields handle).map (Field.rekey ρ) ++ new)
  /-- A new field holds null, and nothing of the family is met there. -/
  quiet : ∀ field ∈ new, after.Avoids record field.type ∧ after.IsDefault field.type .null
  object : ∀ reference entries, after.Extends reference.handle record →
    before.conforms reference (.object entries) = true →
      SameItems strict (Entries.keys (g reference.handle entries))
          (Entries.keys (Entries.reshape ρ (Field.entriesOf new fun _ => .null) entries)) ∧
        ∀ key, Entries.value? (g reference.handle entries) key =
          Entries.value? (Entries.reshape ρ (Field.entriesOf new fun _ => .null) entries) key

namespace Reshapes

variable {strict : Prop} {before after : Registry} {record : TypeHandle}
  {g : TypeHandle → Entries → Entries} {ρ : String → String} {new : List Field}
  {reference : TypeReference} {value : Json}

section Step

variable (h : Reshapes strict before after record g ρ new)

include h

theorem exists_object (hextends : after.Extends reference.handle record)
    (hconforms : before.conforms reference value = true) : ∃ entries, value = .object entries :=
  exists_object_of_outerFits (h.same.kinds _ hextends).1 (conforms_iff.mp hconforms).1

theorem parts_eq (hout : ¬ after.Extends reference.handle record) :
    after.parts reference value = before.parts reference value :=
  parts_congr (h.same.alike _ hout).kind (h.outside _ hout)

/-- The keys of an object of the family, before and after. -/
theorem keys_perm {entries : Entries} (hextends : after.Extends reference.handle record)
    (hconforms : before.conforms reference (.object entries) = true) :
    (Entries.keys entries).Perm ((before.allFields reference.handle).map Field.name) ∧
      (Entries.keys (Entries.reshape ρ (Field.entriesOf new fun _ => .null) entries)).Nodup := by
  have hentries : (Entries.keys entries).Perm
      ((before.allFields reference.handle).map Field.name) :=
    keys_nodup_of_conforms (h.same.kinds _ hextends).1 (h.wellFormed.names _) hconforms
  exact ⟨hentries, (Parts.keys_reshape_perm (h.fields _ hextends) hentries).nodup_iff.mpr
    (h.same.wellFormed.names _)⟩

/-- What lies directly inside a value lies inside the answer of the step. -/
theorem inside (hconforms : before.conforms reference value = true) {child : Child}
    (hchild : child ∈ before.childValues reference value) :
    after.Inside reference (after.reviseFamily record g reference value) child.type
      child.value := by
  by_cases hextends : after.Extends reference.handle record
  · obtain ⟨entries, rfl⟩ := h.exists_object hextends hconforms
    obtain ⟨hkindBefore, hkindAfter⟩ := h.same.kinds _ hextends
    obtain ⟨field, hfield, held, hheld, rfl⟩ := (mem_childValues_of_record hkindBefore).mp hchild
    have hkept : field.rekey ρ ∈ after.allFields reference.handle :=
      (h.fields _ hextends).mem_iff.mpr
        (List.mem_append_left _ (List.mem_map_of_mem (f := Field.rekey ρ) hfield))
    have hvalue : Entries.value? (g reference.handle entries) (field.rekey ρ).name = some held := by
      rw [(h.object reference entries hextends hconforms).2]
      exact Entries.value?_reshape (h.keys_perm hextends hconforms).2 hheld
    rw [reviseFamily_of_extends hextends]
    exact ⟨_, (mem_childValues_of_record hkindAfter).mpr ⟨_, hkept, held, hvalue, rfl⟩, rfl, rfl⟩
  · rw [reviseFamily_of_not_extends hextends]
    exact ⟨child, by rwa [childValues, h.parts_eq hextends], rfl, rfl⟩

/-- A walk leaves a new field null. -/
theorem walk_new {field : Field} (hfield : field ∈ new) (levels : Nat) :
    after.mapWithin (after.reviseFamily record g) levels field.type
      (after.reviseFamily record g field.type .null) = .null := by
  obtain ⟨havoids, hdefault⟩ := h.quiet field hfield
  have hout := h.same.wellFormed.everywhere_default havoids hdefault
  have hnone : after.Everywhere (fun type _ => after.isParentOf record type.handle = false)
      field.type .null := by
    intro type inner hwithin
    rw [← Bool.not_eq_true, isParentOf_iff]
    exact hout type inner hwithin
  rw [reviseFamily_of_not_extends hout.here]
  refine (mapWithin_and_metWithin_of_unconcerned (fun type inner hfree => ?_) levels hnone).1
  rw [reviseFamily, whereConcerned, hfree]
  rfl

/-- Where the walk rewrites everything directly inside a value, it rewrites the value. -/
theorem like_step (levels : Nat) (hconforms : before.conforms reference value = true)
    (hchildren : ∀ child ∈ before.childValues reference value,
      Json.Like strict
        (after.mapWithin (after.reviseFamily record g) levels child.type
          (after.reviseFamily record g child.type child.value))
        (before.rewrite
          (before.reshapeFamily record ρ (Field.entriesOf new fun _ => .null)) child.type
          child.value)) :
    Json.Like strict
      (after.mapWithin (after.reviseFamily record g) (levels + 1) reference
        (after.reviseFamily record g reference value))
      (before.rewrite (before.reshapeFamily record ρ (Field.entriesOf new fun _ => .null))
        reference value) := by
  rw [mapWithin, rewrite_eq (h.wellFormed.names _)]
  by_cases hextends : after.Extends reference.handle record
  · obtain ⟨entries, rfl⟩ := h.exists_object hextends hconforms
    obtain ⟨hkindBefore, hkindAfter⟩ := h.same.kinds _ hextends
    obtain ⟨hkeys, hvalues⟩ := h.object reference entries hextends hconforms
    rw [reviseFamily_of_extends hextends, parts_of_record hkindAfter, parts_of_record hkindBefore,
      Parts.mapChildren, Parts.mapChildren, reshapeFamily_of_extends ((h.family _).mp hextends)]
    refine Parts.like_mapFields_reshape (h.wellFormed.names _) (h.same.wellFormed.names _)
      (h.fields _ hextends) (h.keys_perm hextends hconforms).1 hkeys hvalues
      (fun field hfield => h.walk_new hfield levels) fun field hfield held hheld => ?_
    exact hchildren _ ((mem_childValues_of_record hkindBefore).mpr
      ⟨field, hfield, held, hheld, rfl⟩)
  · rw [reviseFamily_of_not_extends hextends, h.parts_eq hextends,
      reshapeFamily_of_not_extends (mt (h.family _).mpr hextends)]
    by_cases hkind : before.kind? reference.handle = some .record
    · obtain ⟨entries, rfl⟩ := exists_object_of_outerFits hkind (conforms_iff.mp hconforms).1
      rw [parts_of_record hkind]
      refine Parts.like_mapFields (h.wellFormed.names _)
        (keys_nodup_of_conforms hkind (h.wellFormed.names _) hconforms)
        fun field hfield held hheld => ?_
      exact hchildren _ ((mem_childValues_of_record hkind).mpr ⟨field, hfield, held, hheld, rfl⟩)
    · exact Parts.like_mapChildren (parts_ne_fields hkind) hchildren

/-- What the migration makes of a root is what rewriting makes of its value. -/
theorem like_revisedRoot {root : Root} (hroot : before.ConformingRoot root) :
    Root.Like strict (after.revisedRoot (after.reviseFamily record g) root)
      ⟨root.type, before.rewrite
        (before.reshapeFamily record ρ (Field.entriesOf new fun _ => .null)) root.type
        root.value⟩ := by
  refine ⟨rfl, ?_⟩
  exact walk_induction
    (motive := fun levels reference value => Json.Like strict
      (after.mapWithin (after.reviseFamily record g) levels reference
        (after.reviseFamily record g reference value))
      (before.rewrite (before.reshapeFamily record ρ (Field.entriesOf new fun _ => .null))
        reference value))
    (fun reference value hconforms child hchild =>
      ⟨⟨child, hchild, rfl, rfl⟩, h.inside hconforms hchild⟩)
    (fun levels _ _ hconforms => h.like_step levels hconforms) after.defaultDepth hroot

end Step

end Reshapes
/-! ## Fields that are added or exchanged -/

section Changes

variable {registry after : Registry} {record : TypeHandle} {new : List Field} {own : Field}
  {index : Nat} {target : String}

/-- The default of the type `void` is null. -/
theorem Formed.default?_void (hformed : registry.Formed) :
    registry.default? (.plain void) = some .null := by
  have hdefault : registry.default? (.plain void) = some (simpleDefault .void) :=
    defaultWithin?_simple hformed.get?_void rfl (by decide) (by decide)
  exact hdefault

/-- An object that is given exactly the fields of its record keeps what it holds, and holds null under
the names of new fields. -/
theorem WellFormed.like_conformed (hwf : registry.WellFormed) (hwfAfter : after.WellFormed)
    {reference : TypeReference} {entries : Entries}
    (hkind : registry.kind? reference.handle = some .record)
    (hconforms : registry.conforms reference (.object entries) = true)
    (hfields : (after.allFields reference.handle).Perm
      ((registry.allFields reference.handle).map (Field.rekey id) ++ new))
    (hnew : ∀ field ∈ new, after.default? field.type = some .null) :
    SameItems False (Entries.keys (after.conformed reference.handle entries))
        (Entries.keys (Entries.reshape id (Field.entriesOf new fun _ => .null) entries)) ∧
      ∀ key, Entries.value? (after.conformed reference.handle entries) key =
        Entries.value? (Entries.reshape id (Field.entriesOf new fun _ => .null) entries) key := by
  have hnodup := hwf.keys_nodup hkind hconforms
  have hentries : (Entries.keys entries).Perm
      ((registry.allFields reference.handle).map Field.name) :=
    keys_nodup_of_conforms hkind (hwf.names _) hconforms
  have hperm : (Entries.keys (Entries.reshape id (Field.entriesOf new fun _ => .null)
      entries)).Perm (after.allFieldNames reference.handle) :=
    Parts.keys_reshape_perm hfields hentries
  have hkeys : Entries.keys (after.conformed reference.handle entries) =
      after.allFieldNames reference.handle := hwfAfter.keys_conformed hnodup
  have hdistinct := hperm.nodup_iff.mpr (hwfAfter.names _)
  refine ⟨.of_perm (hkeys ▸ hperm.symm), fun key => ?_⟩
  by_cases hkey : key ∈ after.allFieldNames reference.handle
  · obtain ⟨field, hfield, rfl⟩ := List.mem_map.mp hkey
    rw [hwfAfter.value?_conformed hnodup (mem_slots_iff.mpr ⟨field, hfield, rfl, rfl⟩)]
    rcases List.mem_append.mp (hfields.mem_iff.mp hfield) with hkept | hadded
    · rw [Field.rekey_id, List.map_id] at hkept
      obtain ⟨held, hheld⟩ := hwf.exists_held hkept hconforms
      rw [hheld, Option.getD_some]
      exact (Entries.value?_reshape hdistinct hheld).symm
    · -- an object had nothing under the name of a new field
      have hnone : Entries.value? entries field.name = none := by
        rw [Entries.keys_reshape, List.map_id, Field.keys_entriesOf] at hdistinct
        refine Entries.value?_eq_none_iff.mpr fun hmem => ?_
        exact (List.nodup_append.mp hdistinct).2.2 _ hmem _ (List.mem_map_of_mem hadded) rfl
      rw [hnone, Option.getD_none, defaultValue, hnew field hadded, Option.getD_some]
      exact (Entries.value?_reshape_added hdistinct
        (List.mem_map.mpr ⟨field, hadded, rfl⟩)).symm
  · rw [Entries.value?_eq_none_iff.mpr (hkeys ▸ hkey)]
    exact (Entries.value?_eq_none_iff.mpr fun hmem => hkey (hperm.mem_iff.mp hmem)).symm

/-- Objects that are given exactly the fields of their record keep their keys and get those of new
fields. -/
theorem WellFormed.reshapes_conformed (hwf : registry.WellFormed) (g : List Field → List Field)
    (hrecord : registry.IsRecord record) (hafter : after = registry.modifyFields record g)
    (hwfAfter : after.WellFormed)
    (hown : (g (registry.ownFields record)).Perm (registry.ownFields record ++ new))
    (hnew : ∀ field ∈ new, after.Avoids record field.type ∧
      after.default? field.type = some .null) :
    Reshapes False registry after record after.conformed id new := by
  have hsame : SameButFamily registry after record :=
    hafter ▸ hwf.sameButFamily_modifyFields g hrecord (hafter ▸ hwfAfter)
  have hextends : after.Extends = registry.Extends := by rw [hafter, extends_modifyFields]
  have hfields : ∀ handle, after.Extends handle record →
      (after.allFields handle).Perm ((registry.allFields handle).map (Field.rekey id) ++ new) := by
    intro handle hinside
    rw [hextends] at hinside
    obtain ⟨above, below, hold, hchanged⟩ := hwf.allFields_modifyFields g hrecord hinside
    rw [Field.rekey_id, List.map_id, hafter, hchanged, hold]
    refine ((hown.append_left above).append_right below).trans ?_
    simp only [List.append_assoc]
    exact (List.perm_append_comm.append_left _).append_left above
  refine ⟨hwf, hsame, fun handle hout => ?_, fun handle => by rw [hextends], hfields,
    fun field hfield => ⟨(hnew field hfield).1, [], (hnew field hfield).2⟩, ?_⟩
  · rw [hextends] at hout
    rw [hafter, hwf.allFields_modifyFields_of_not_extends g hout]
  · intro reference entries hinside hconforms
    exact hwf.like_conformed hwfAfter (hsame.kinds _ hinside).1 hconforms (hfields _ hinside)
      fun field hfield => (hnew field hfield).2

/-- A renamed field moves to its new key in every object of the family, in its place. -/
theorem WellFormed.reshapes_renameField (hwf : registry.WellFormed)
    (hrecord : registry.IsRecord record)
    (hindex : (registry.ownFields record)[index]? = some own)
    (hafter : after = registry.modifyFields record fun fields =>
      fields.modify index fun own => { own with name := target })
    (hwfAfter : after.WellFormed) :
    Reshapes True registry after record
      (fun _ entries => Entries.renameKey entries own.name target)
      (Entries.renamed own.name target) [] := by
  have hsame : SameButFamily registry after record :=
    hafter ▸ hwf.sameButFamily_modifyFields _ hrecord (hafter ▸ hwfAfter)
  have hextends : after.Extends = registry.Extends := by rw [hafter, extends_modifyFields]
  have hsplit : ∀ handle, after.Extends handle record → ∃ above below,
      registry.allFields handle = above ++ own :: below ∧
        after.allFields handle = above ++ { own with name := target } :: below := by
    intro handle hinside
    rw [hextends] at hinside
    rw [hafter]
    exact hwf.allFields_modifyField (fun own => { own with name := target }) hrecord hindex hinside
  refine ⟨hwf, hsame, fun handle hout => ?_, fun handle => by rw [hextends],
    fun handle hinside => ?_, fun field hfield => absurd hfield List.not_mem_nil, ?_⟩
  · rw [hextends] at hout
    rw [hafter, hwf.allFields_modifyFields_of_not_extends _ hout]
  · obtain ⟨above, below, hold, hnew⟩ := hsplit handle hinside
    have hnames := hwf.names handle
    rw [allFieldNames, hold] at hnames
    obtain ⟨habove, hbelow⟩ := Field.names_beside hnames
    rw [hold, hnew, List.append_nil, List.map_append, List.map_cons,
      Field.map_rekey_of_not_mem habove, Field.map_rekey_of_not_mem hbelow, Field.rekey,
      Entries.renamed, if_pos rfl]
  · intro reference entries hinside hconforms
    obtain ⟨above, below, hold, hnew⟩ := hsplit _ hinside
    have hkind := (hsame.kinds _ hinside).1
    have hentries : (Entries.keys entries).Perm (registry.allFieldNames reference.handle) :=
      keys_nodup_of_conforms hkind (hwf.names _) hconforms
    have htarget : target = own.name ∨ target ∉ Entries.keys entries := by
      have hnames := hwfAfter.names reference.handle
      rw [allFieldNames, hnew] at hnames
      obtain ⟨habove, hbelow⟩ := Field.names_beside hnames
      rw [hentries.mem_iff, allFieldNames, hold, List.map_append, List.map_cons, List.mem_append,
        List.mem_cons]
      by_cases hsameName : target = own.name
      · exact .inl hsameName
      · exact .inr fun hmem => hmem.elim habove fun hrest => hrest.elim hsameName hbelow
    have hrenamed := Entries.renameKey_eq_map (hwf.keys_nodup hkind hconforms) htarget
    have hreshaped : Entries.renameKey entries own.name target =
        Entries.reshape (Entries.renamed own.name target) (Field.entriesOf [] fun _ => .null)
          entries := by
      rw [hrenamed, Entries.reshape, Field.entriesOf, List.map_nil, List.append_nil]
    exact ⟨.of_eq (by rw [hreshaped]), fun key => by rw [hreshaped]⟩

end Changes

end Registry

namespace Stores

variable {stores : Stores}

/-- The stores with the value of every root rewritten. -/
def rewritten (stores : Stores) (registry : Registry) (f : TypeReference → Json → Json) : Stores :=
  stores.mapRoots fun root => ⟨root.type, registry.rewrite f root.type root.value⟩

theorem like_revised {strict : Prop} {before after : Registry} {record : TypeHandle}
    {g : TypeHandle → Entries → Entries} {ρ : String → String} {new : List Field}
    (h : Registry.Reshapes strict before after record g ρ new)
    (hconforms : stores.EveryRoot before.ConformingRoot) :
    Like strict (stores.revised after (after.reviseFamily record g))
      (stores.rewritten before
        (before.reshapeFamily record ρ (Field.entriesOf new fun _ => .null))) :=
  like_mapRoots fun store name root hroot => h.like_revisedRoot (hconforms store name root hroot)

end Stores

/-! ## Mutations that reshape objects -/

namespace Content

open Registry

variable {content : Content} {record : TypeHandle} {change : Change}

/-- The objects of a record and of what extends it, outermost first. -/
def objectsOf (content : Content) (record : TypeHandle) : List Site :=
  content.stores.reachedSites content.registry noBarrier fun type =>
    content.registry.isParentOf record type.handle

/-- The stores with other keys in each of these objects, and further ones. -/
def reshapedStores (content : Content) (record : TypeHandle) (ρ : String → String)
    (added : Entries) : Stores :=
  content.stores.rewritten content.registry (content.registry.reshapeFamily record ρ added)

theorem reshapedStores_id (hwf : content.registry.WellFormed) (record : TypeHandle) :
    content.reshapedStores record id [] = content.stores := by
  have hidle : ∀ type inner, content.registry.reshapeFamily record id [] type inner = inner := by
    intro type inner
    rw [reshapeFamily, whereConcerned, Json.reshape_id, ite_self]
  unfold reshapedStores Stores.rewritten
  simp only [rewrite_of_idle hwf.names hidle]
  exact Stores.mapRoots_id

/-- Exchanging two fields exchanges keys at most. -/
theorem swapFields_stores (hwf : content.registry.WellFormed) (hconforms : content.Conforms)
    {first second : Nat} (h : content.swapFields record first second = .ok change) :
    Stores.Same change.content.stores content.stores := by
  obtain ⟨hrecord, after, hafter, hcontent⟩ := swapFields_ok h
  have hreshapes : Reshapes False content.registry after record after.conformed id [] := by
    refine hwf.reshapes_conformed _ hrecord hafter
      (hafter ▸ hwf.exchangeFields first second hrecord) ?_ fun _ hfield =>
        absurd hfield List.not_mem_nil
    rw [List.append_nil]
    exact exchange_perm _ first second
  have hall : Stores.Same (content.stores.revised after (after.reviseFamily record after.conformed))
      (content.reshapedStores record id []) := Stores.like_revised hreshapes hconforms
  rw [reshapedStores_id hwf] at hall
  rwa [hcontent, Stores.conformRecords_snd]

/-- What is among these objects is an object, and conforms. -/
theorem exists_entries_of_mem_objectsOf (hwf : content.registry.WellFormed)
    (hrecord : content.registry.IsRecord record) (hconforms : content.Conforms) {object : Site}
    (hobject : object ∈ content.objectsOf record) :
    content.registry.Extends object.type.handle record ∧
      ∃ entries, object.value = .object entries ∧
        (Entries.keys entries).Perm (content.registry.allFieldNames object.type.handle) := by
  obtain ⟨-, -, -, -, hmatching⟩ := Stores.mem_reachedSites hobject
  have hextends := (isParentOf_iff _ _).mp hmatching
  obtain ⟨entries, hentries, hfits⟩ :=
    Stores.exists_object_of_mem_reachedSites hwf hrecord hconforms hobject hextends
  have hkind := kind?_eq_record_iff.mpr (hwf.isRecord_of_extends hrecord hextends)
  exact ⟨hextends, entries, hentries, keys_nodup_of_conforms hkind (hwf.names _) hfits⟩

/-- Adding a field puts null under a new key of every object of the record, and of what extends it. -/
theorem addField_stores (hwf : content.registry.WellFormed) (hconforms : content.Conforms)
    (h : content.addField record = .ok change) :
    ∃ name, change.answer = .name name ∧
      (∀ object ∈ content.objectsOf record,
        PathSegment.child? object.value (.field name) = none) ∧
      Stores.Same change.content.stores (content.reshapedStores record id [(name, .null)]) := by
  obtain ⟨hrecord, after, hafter, hcontent⟩ := addField_ok h
  have hcheck : Legality.checkFieldName content.registry record none
      (freshFieldName content.registry record) = .ok () := checkFieldName_freshFieldName hrecord
  have hwfAfter : after.WellFormed := hafter ▸ hwf.addVoidField hrecord hcheck
  have hreshapes : Reshapes False content.registry after record after.conformed id
      [⟨freshFieldName content.registry record, .plain void, .empty, ""⟩] := by
    refine hwf.reshapes_conformed _ hrecord hafter hwfAfter (.refl _) fun field hfield => ?_
    obtain rfl := List.mem_singleton.mp hfield
    have hrecordAfter : after.IsRecord record := hafter ▸ isRecord_modifyFields _ hrecord
    exact ⟨hwfAfter.avoids_void hrecordAfter, hwfAfter.toFormed.default?_void⟩
  refine ⟨freshFieldName content.registry record, ?_, fun object hobject => ?_, ?_⟩
  · exact answer_addField h
  · obtain ⟨hextends, entries, hentries, hkeys⟩ :=
      exists_entries_of_mem_objectsOf hwf hrecord hconforms hobject
    rw [hentries, Json.child?_object, Entries.value?_eq_none_iff, hkeys.mem_iff]
    exact hwf.not_mem_of_checkFieldName hcheck hextends
  · rw [hcontent, Stores.conformRecords_snd]
    exact Stores.like_revised hreshapes hconforms

/-- Renaming a field moves what every object of the record, and of what extends it, holds under the old
key to the new one. -/
theorem setFieldName_stores (hwf : content.registry.WellFormed) (hconforms : content.Conforms)
    {field name : String} (h : content.setFieldName record field name = .ok change) :
    (∀ object ∈ content.objectsOf record,
        (∃ held, PathSegment.child? object.value (.field field) = some held) ∧
          (name = field ∨ PathSegment.child? object.value (.field name) = none)) ∧
      change.content.stores = content.reshapedStores record (Entries.renamed field name) [] := by
  obtain ⟨index, own, after, hindex, rfl, hcheck, hafter, hcontent⟩ := setFieldName_ok h
  obtain ⟨hrecord, -⟩ := Legality.checkFieldName_eq_ok.mp hcheck
  have hown := List.mem_of_getElem? hindex
  refine ⟨fun object hobject => ?_, ?_⟩
  · obtain ⟨hextends, entries, hentries, hkeys⟩ :=
      exists_entries_of_mem_objectsOf hwf hrecord hconforms hobject
    rw [hentries, Json.child?_object, Json.child?_object, Entries.exists_value?_iff,
      Entries.value?_eq_none_iff, hkeys.mem_iff, hkeys.mem_iff]
    refine ⟨List.mem_map_of_mem ((mem_allFields_iff hwf.inheritance).mpr ⟨record, hextends, hown⟩),
      ?_⟩
    by_cases hsame : name = own.name
    · exact .inl hsame
    · refine .inr fun hmem => hsame ?_
      obtain ⟨other, hother, hname⟩ := List.mem_map.mp hmem
      exact (Option.some.inj (hwf.eq_current_of_checkFieldName hcheck hextends hother hname)).symm
  · have hwfAfter : after.WellFormed := hafter ▸ hwf.renameField hindex hcheck
    rw [hcontent, Stores.renameField_snd]
    exact (Stores.like_revised (hwf.reshapes_renameField hrecord hindex hafter hwfAfter)
      hconforms).eq

end Content
end LiveSchema
