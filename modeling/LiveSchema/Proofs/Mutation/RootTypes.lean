import LiveSchema.Proofs.Mutation.Names
import LiveSchema.Proofs.Mutation.Removal

/-!
# What mutations do to the types of roots

Migrations change the values of roots but never their types, and no mutation but the one that adds a
root brings a new type into a store.  So the types of all roots stay legal: a type is deleted together
with every root whose type mentions it.
-/

namespace LiveSchema
namespace Content

open Registry

variable {content before after : Content} {handle : TypeHandle}

/-- The stores and roots after a change: they were there before, and the roots had the same type, or
they were added under a legal name, and the roots with a legal type.  No store is lost. -/
structure RootsFrom (before after : Content) : Prop where
  kept : ∀ store, before.stores.contains store = true → after.stores.contains store = true
  stores : ∀ store, after.stores.contains store = true →
    before.stores.contains store = true ∨ Legality.IsIdentifier store
  roots : ∀ store name root, after.stores.root? store name = some root →
    (∃ old, before.stores.root? store name = some old ∧ old.type = root.type) ∨
      (Legality.IsIdentifier name ∧ before.registry.Legal root.type ∧
        after.registry = before.registry)

theorem rootsFrom_of_eq (h : after.stores = before.stores) : RootsFrom before after where
  kept _ hstore := h ▸ hstore
  stores _ hstore := Or.inl (h ▸ hstore)
  roots _ _ root hroot := Or.inl ⟨root, h ▸ hroot, rfl⟩

theorem rootsFrom_of_revised {registry : Registry} {f : TypeReference → Json → Json}
    (h : after.stores = before.stores.revised registry f) : RootsFrom before after where
  kept store hstore := by
    rw [h, NameMap.contains, Stores.revised, NameMap.get?_mapValues, Option.isSome_map]
    exact hstore
  stores store hstore := by
    rw [h, NameMap.contains, Stores.revised, NameMap.get?_mapValues, Option.isSome_map] at hstore
    exact Or.inl hstore
  roots store name root hroot := by
    rw [h, Stores.root?_revised, Option.map_eq_some_iff] at hroot
    obtain ⟨old, hold, rfl⟩ := hroot
    exact Or.inl ⟨old, hold, rfl⟩

/-- A store in which roots were changed. -/
theorem rootsFrom_of_insert {store : String} {kept changed : Store}
    (hkept : before.stores.get? store = some kept)
    (hafter : after = { before with stores := before.stores.insert store changed })
    (hroots : ∀ name root, NameMap.get? changed name = some root →
      (∃ old, NameMap.get? kept name = some old ∧ old.type = root.type) ∨
        (Legality.IsIdentifier name ∧ before.registry.Legal root.type)) :
    RootsFrom before after where
  kept other hother := by
    subst hafter
    exact NameMap.contains_insert.mpr (Or.inr hother)
  stores other hother := by
    subst hafter
    rcases NameMap.contains_insert.mp hother with rfl | hother
    · exact Or.inl (NameMap.contains_of_get? hkept)
    · exact Or.inl hother
  roots other name root hroot := by
    subst hafter
    rw [Stores.root?_insert] at hroot
    split at hroot
    next hsame =>
        rcases hroots name root hroot with ⟨old, hold, htype⟩ | ⟨hname, hlegal⟩
        · exact Or.inl ⟨old, Stores.root?_eq_some_iff.mpr ⟨kept, hsame ▸ hkept, hold⟩, htype⟩
        · exact Or.inr ⟨hname, hlegal, rfl⟩
    next => exact Or.inl ⟨root, hroot, rfl⟩

/-- Removing roots removes no store. -/
theorem contains_removeRoots (registry : Registry) (stores : Stores)
    (names : List (String × String)) (other : String) :
    (removeRoots registry stores names).2.contains other = stores.contains other := by
  induction names generalizing stores with
  | nil => rfl
  | cons first rest ih =>
      obtain ⟨store, root⟩ := first
      rw [removeRoots]
      cases hkept : stores.get? store with
      | none => exact ih stores
      | some kept =>
          dsimp only
          cases NameMap.get? kept root with
          | none => exact ih stores
          | some removed =>
              dsimp only
              rw [ih, Bool.eq_iff_iff, NameMap.contains_insert]
              refine or_iff_right_of_imp fun hsame => ?_
              exact hsame ▸ NameMap.contains_of_get? hkept

end Content

namespace Mutation

open Content Registry

theorem rootsFrom_carryOut {content : Content} {mutation : Mutation} {change : Change}
    (h : mutation.carryOut content = .ok change) : RootsFrom content change.content := by
  cases mutation with
  | addStruct | addClass | addEnum =>
      obtain ⟨-, hcontent⟩ := addType_ok h
      exact rootsFrom_of_eq (by rw [hcontent]; rfl)
  | setTypeName type name =>
      obtain ⟨-, -, -, hcontent⟩ := setTypeName_ok h
      exact rootsFrom_of_eq (by rw [hcontent]; rfl)
  | setRecordBaseType record base =>
      obtain ⟨-, hcontent⟩ := setRecordBaseType_ok h
      exact rootsFrom_of_revised (by rw [hcontent, Stores.conformRecords_snd])
  | setRecordTable record enabled =>
      obtain ⟨-, flags, -, hcontent⟩ := setRecordTable_ok h
      exact rootsFrom_of_eq (by rw [hcontent]; rfl)
  | deleteType type =>
      obtain ⟨-, -, hcontent⟩ := deleteType_ok h
      refine ⟨fun store hstore => ?_, fun store hstore => ?_, fun store name root hroot => ?_⟩
      · rw [hcontent, contains_removeRoots]
        exact hstore
      · rw [hcontent, contains_removeRoots] at hstore
        exact Or.inl hstore
      · rw [hcontent, root?_removeRoots] at hroot
        split at hroot
        next => exact absurd hroot (by simp)
        next => exact Or.inl ⟨root, hroot, rfl⟩
  | addField record =>
      obtain ⟨-, registry, -, hcontent⟩ := addField_ok h
      exact rootsFrom_of_revised (by rw [hcontent, Stores.conformRecords_snd])
  | setFieldName record field name =>
      obtain ⟨index, own, registry, -, -, -, -, hcontent⟩ := setFieldName_ok h
      exact rootsFrom_of_revised (by rw [hcontent, Stores.renameField_snd])
  | setFieldType record field type =>
      obtain ⟨index, own, registry, -, -, -, -, hcontent⟩ := setFieldType_ok h
      exact rootsFrom_of_revised (by rw [hcontent, Stores.convertField_snd])
  | setFieldFlags record field flags =>
      obtain ⟨-, index, own, -, -, hcontent⟩ := setFieldFlags_ok h
      exact rootsFrom_of_eq (by rw [hcontent]; rfl)
  | swapFields record first second =>
      obtain ⟨-, registry, -, hcontent⟩ := swapFields_ok h
      exact rootsFrom_of_revised (by rw [hcontent, Stores.conformRecords_snd])
  | moveField source field target =>
      obtain ⟨-, -, -, index, own, registry, -, -, -, -, hcontent, -⟩ := moveField_checked h
      exact rootsFrom_of_revised (by rw [hcontent, Stores.conformRecords_snd])
  | flattenBase record =>
      obtain ⟨base, definition, ofBase, registry, -, -, -, -, hcontent⟩ := flattenBase_ok h
      exact rootsFrom_of_revised (by rw [hcontent, Stores.conformRecords_snd])
  | deleteField record field =>
      obtain ⟨-, index, own, registry, -, -, -, hcontent, -⟩ := deleteField_checked h
      exact rootsFrom_of_revised (by rw [hcontent, Stores.conformRecords_snd])
  | addEnumerator enumeration =>
      obtain ⟨definition, held, -, -, hcontent⟩ := addEnumerator_ok h
      exact rootsFrom_of_eq (by rw [hcontent]; rfl)
  | setEnumeratorName enumeration index name =>
      obtain ⟨definition, held, -, -, -, hcontent⟩ := setEnumeratorName_ok h
      exact rootsFrom_of_eq (by rw [hcontent]; rfl)
  | setEnumeratorValue enumeration index value =>
      obtain ⟨definition, held, -, -, g, registry, mapping, removed, -, -, hcontent⟩ :=
        setEnumeratorValue_ok h
      exact rootsFrom_of_revised (by rw [hcontent, Stores.renumber_snd])
  | deleteEnumerator enumeration index =>
      obtain ⟨definition, held, -, -, g, registry, mapping, removed, -, -, hcontent⟩ :=
        deleteEnumerator_ok h
      exact rootsFrom_of_revised (by rw [hcontent, Stores.renumber_snd])
  | addStore store =>
      obtain ⟨hname, hfree, hcontent⟩ := addStore_ok h
      refine ⟨fun other hother => ?_, fun other hother => ?_, fun other name root hroot => ?_⟩
      · rw [hcontent]
        exact NameMap.contains_insert.mpr (Or.inr hother)
      · rw [hcontent] at hother
        rcases NameMap.contains_insert.mp hother with rfl | hother
        · exact Or.inr hname
        · exact Or.inl hother
      · rw [hcontent, Stores.root?_insert] at hroot
        split at hroot
        next => exact absurd hroot (by simp)
        next => exact Or.inl ⟨root, hroot, rfl⟩
  | addRoot store root type =>
      obtain ⟨kept, hkept, hname, -, hlegal, hcontent⟩ := addRoot_ok h
      refine rootsFrom_of_insert hkept hcontent fun name held hheld => ?_
      rw [NameMap.get?_insert] at hheld
      split at hheld
      next hsame =>
          obtain rfl := Option.some.inj hheld
          exact Or.inr ⟨hsame ▸ hname, hlegal⟩
      next => exact Or.inl ⟨held, hheld, rfl⟩
  | setRootValue store root value =>
      obtain ⟨kept, previous, hkept, hprevious, -, hcontent⟩ := setRootValue_ok h
      refine rootsFrom_of_insert hkept hcontent fun name held hheld => Or.inl ?_
      rw [NameMap.get?_insert] at hheld
      split at hheld
      next hsame =>
          obtain rfl := Option.some.inj hheld
          exact ⟨previous, hsame ▸ hprevious, rfl⟩
      next => exact ⟨held, hheld, rfl⟩
  | deleteRoot store root =>
      obtain ⟨kept, removed, hkept, -, hcontent⟩ := deleteRoot_ok h
      refine rootsFrom_of_insert hkept hcontent fun name held hheld => Or.inl ?_
      rw [NameMap.get?_erase] at hheld
      split at hheld
      next => exact absurd hheld (by simp)
      next => exact ⟨held, hheld, rfl⟩

/-- No root whose type mentions a type is left when the type is deleted. -/
theorem root_unmentioned_of_deleteType {content : Content} {change : Change} {handle : TypeHandle}
    (h : (deleteType handle).carryOut content = .ok change) {store name : String} {root : Root}
    (hroot : change.content.stores.root? store name = some root) :
    root.type.mentions handle = false := by
  obtain ⟨-, -, hcontent⟩ := deleteType_ok h
  rw [hcontent, root?_removeRoots] at hroot
  split at hroot
  next => exact absurd hroot (by simp)
  next hkept =>
      have hfree : content.registry.containsType root.type root.value handle = false := by
        by_contra hcontains
        rw [Bool.not_eq_false] at hcontains
        exact hkept (mem_dataRoots.mpr ⟨_, hroot, hcontains⟩)
      exact (everywhere_of_containsType hfree).here

/-- The types of all roots stay legal. -/
theorem legalRoots_carryOut {content : Content} {mutation : Mutation} {change : Change}
    (hlegal : content.stores.EveryRoot fun root => content.registry.Legal root.type)
    (h : mutation.carryOut content = .ok change) :
    change.content.stores.EveryRoot fun root => change.content.registry.Legal root.type := by
  intro store name root hroot
  have hfollows := follows_carryOut h
  rcases (rootsFrom_carryOut h).roots store name root hroot with
    ⟨old, hold, htype⟩ | ⟨-, hnew, hsame⟩
  · have hbefore : content.registry.Legal root.type := htype ▸ hlegal store name old hold
    refine hbefore.congr fun handle hmentions => ?_
    have hstays : mutation.nameChange content.registry ≠ .removed handle := by
      intro hremoved
      obtain rfl := eq_deleteType_of_nameChange hremoved
      exact absurd (hmentions.symm.trans (root_unmentioned_of_deleteType h hroot)) (by simp)
    obtain ⟨first, hfirst⟩ := hbefore.get?_of_mentions hmentions
    obtain ⟨second, hsecond⟩ := hfollows.exists_get? hfirst hstays
    exact hfollows.outline?_eq hfirst hsecond
  · rw [hsame]
    exact hnew

end Mutation
end LiveSchema
