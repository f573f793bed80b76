import LiveSchema.Proofs.Mutation.Losing
import LiveSchema.Proofs.Mutation.Steps

/-!
# Changes that keep nothing

Four mutations reshape the objects of a record and record nothing of what the objects lose by it.  An
object that holds exactly the fields of its record loses nothing, but restored objects may hold other
keys, and restored records may repeat the name of a field.  What is said here is asked of no registry
and no object but that the object repeats no key.
-/

namespace LiveSchema
namespace Mutation

variable {mutation : Mutation} {record : TypeHandle}

/-- The record whose objects a mutation reshapes without keeping what they lose. -/
def reshaped? : Mutation → Option TypeHandle
  | .addField record => some record
  | .setFieldName record _ _ => some record
  | .swapFields record _ _ => some record
  | .flattenBase record => some record
  | _ => none

/-- What such a mutation makes of an object, with the registry of after the change. -/
def reshape (mutation : Mutation) (registry : Registry) (type : TypeHandle)
    (entries : Entries) : Entries :=
  match mutation with
  | .setFieldName _ field name => Entries.renameKey entries field name
  | _ => registry.conformed type entries

/-- The key under which an entry stands afterwards, if it stays. -/
def keyAfter (mutation : Mutation) (key : String) : String :=
  match mutation with
  | .setFieldName _ field name => Entries.renamed field name key
  | _ => key

/-- The entry stays.  A key that is renamed must be the last one that gets its new name; otherwise,
exactly one effective field must have the name. -/
def Spares (mutation : Mutation) (registry : Registry) (type : TypeHandle) (entries : Entries)
    (key : String) : Prop :=
  match mutation with
  | .setFieldName _ field name =>
    ((Entries.keys entries).filter fun other =>
      Entries.renamed field name other = Entries.renamed field name key).getLast? = some key
  | _ => (registry.allFieldNames type).count key = 1

end Mutation

/-! ## Entries that stay, and entries that go -/

namespace Entries

variable {entries : Entries} {key : String} {value : Json} {source target : String}

/-- The last key of those that get the same name keeps its value. -/
theorem value?_renameKey_of_last
    (hlast : ((keys entries).filter fun other =>
      renamed source target other = renamed source target key).getLast? = some key)
    (hnodup : (keys entries).Nodup) (hvalue : value? entries key = some value) :
    value? (renameKey entries source target) (renamed source target key) = some value := by
  rw [keys, List.filter_map, List.getLast?_map, Option.map_eq_some_iff] at hlast
  obtain ⟨entry, hentry, rfl⟩ := hlast
  have hmem := List.mem_of_mem_filter (List.mem_of_getLast? hentry)
  have hfound := value?_of_mem hnodup (show (entry.1, entry.2) ∈ entries from hmem)
  rw [value?_renameKey]
  refine Option.map_eq_some_iff.mpr ⟨entry, hentry, ?_⟩
  exact Option.some.inj (hfound.symm.trans hvalue)

/-- The last element stays the last one if others are taken out. -/
theorem getLast?_filter {α : Type} {list : List α} {p : α → Bool} {last : α}
    (h : list.getLast? = some last) (hlast : p last = true) :
    (list.filter p).getLast? = some last := by
  obtain ⟨front, rfl⟩ := List.getLast?_eq_some_iff.mp h
  rw [List.filter_append, List.filter_cons_of_pos hlast, List.filter_nil, List.getLast?_concat]

/-- Any other key leaves no trace. -/
theorem value?_renameKey_of_not_last
    (hlast : ((keys entries).filter fun other =>
      renamed source target other = renamed source target key).getLast? ≠ some key)
    (other : String) :
    value? (renameKey entries source target) other =
      value? (renameKey (entries.filter fun entry => entry.1 ≠ key) source target) other := by
  rw [value?_renameKey, value?_renameKey, List.filter_comm]
  refine congrArg (Option.map Prod.snd) ?_
  by_cases hother : renamed source target key = other
  · subst hother
    rw [keys, List.filter_map, List.getLast?_map] at hlast
    cases hfound : (entries.filter fun entry =>
        renamed source target entry.1 = renamed source target key).getLast? with
    | none => rw [List.getLast?_eq_none_iff.mp hfound, List.filter_nil, List.getLast?_nil]
    | some last =>
        refine (getLast?_filter hfound ?_).symm
        rw [decide_eq_true_eq]
        rintro rfl
        exact hlast (congrArg (Option.map Prod.fst) hfound)
  · -- an entry under the key does not get the other name
    refine congrArg List.getLast? (List.filter_eq_self.mpr fun entry hentry => ?_).symm
    obtain ⟨-, hgets⟩ := List.mem_filter.mp hentry
    rw [decide_eq_true_eq] at hgets ⊢
    rintro rfl
    exact hother hgets

end Entries

namespace Registry

variable {registry : Registry} {type : TypeHandle} {entries : Entries} {key : String} {value : Json}

/-- What stands under a key of an object that was given the fields of its record. -/
theorem value?_conformed (hnodup : (Entries.keys entries).Nodup) (key : String) :
    Entries.value? (registry.conformed type entries) key =
      registry.fieldValue? key (Entries.value? entries key) (registry.allFields type) := by
  rw [conformed, conform, value?_conformFields hnodup, Entries.value?_nil, Option.or_none]

end Registry

namespace Mutation

variable {mutation : Mutation} {registry : Registry} {type : TypeHandle} {entries : Entries}
  {key : String} {value : Json}

/-- An entry that is spared keeps its value. -/
theorem Spares.value?_reshape (h : mutation.Spares registry type entries key)
    (hnodup : (Entries.keys entries).Nodup) (hvalue : Entries.value? entries key = some value) :
    Entries.value? (mutation.reshape registry type entries) (mutation.keyAfter key) =
      some value := by
  cases mutation with
  | setFieldName record field name => exact Entries.value?_renameKey_of_last h hnodup hvalue
  | _ =>
      refine (Registry.value?_conformed hnodup key).trans ?_
      rw [hvalue]
      exact Registry.fieldValue?_of_count_eq_one h

/-- An entry that is not spared leaves no trace: the object becomes what it would have become without
the entry. -/
theorem value?_reshape_of_not_spares (h : ¬ mutation.Spares registry type entries key)
    (hnodup : (Entries.keys entries).Nodup) (other : String) :
    Entries.value? (mutation.reshape registry type entries) other =
      Entries.value? (mutation.reshape registry type
        (entries.filter fun entry => entry.1 ≠ key)) other := by
  cases mutation with
  | setFieldName record field name => exact Entries.value?_renameKey_of_not_last h other
  | _ =>
      have hwithout : (Entries.keys (entries.filter fun entry => entry.1 ≠ key)).Nodup := by
        rw [Entries.keys_without]
        exact hnodup.filter _
      refine (Registry.value?_conformed hnodup other).trans
        (Eq.trans ?_ (Registry.value?_conformed hwithout other).symm)
      rw [Entries.value?_without]
      by_cases hother : other = key
      · rw [if_pos hother]
        exact Registry.fieldValue?_of_count_ne_one (hother ▸ h)
      · rw [if_neg hother]

/-! ## What is done to the stores, and what is recorded -/

variable {content first second : Content} {change firstChange secondChange : Change}
  {record : TypeHandle}

/-- All objects of the record and of what extends it are reshaped. -/
theorem stores_of_reshaped (hreshaped : mutation.reshaped? = some record)
    (h : mutation.carryOut content = .ok change) :
    change.content.stores = content.stores.revised change.content.registry
      (change.content.registry.reviseFamily record
        (mutation.reshape change.content.registry)) := by
  cases mutation with
  | addField found =>
      obtain rfl := Option.some.inj hreshaped
      obtain ⟨-, registry, -, hcontent⟩ := Content.addField_ok h
      rw [hcontent]
      exact Stores.conformRecords_snd
  | setFieldName found field name =>
      obtain rfl := Option.some.inj hreshaped
      obtain ⟨index, own, registry, -, -, -, -, hcontent⟩ := Content.setFieldName_ok h
      rw [hcontent]
      exact Stores.renameField_snd
  | swapFields found left right =>
      obtain rfl := Option.some.inj hreshaped
      obtain ⟨-, registry, -, hcontent⟩ := Content.swapFields_ok h
      rw [hcontent]
      exact Stores.conformRecords_snd
  | flattenBase found =>
      obtain rfl := Option.some.inj hreshaped
      obtain ⟨base, definition, ofBase, registry, -, -, -, -, hcontent⟩ := Content.flattenBase_ok h
      rw [hcontent]
      exact Stores.conformRecords_snd
  | _ => exact absurd hreshaped (by simp [reshaped?])

/-- What is recorded, but for the number of objects, does not depend on the stores, and holds no
backup. -/
theorem params_of_reshaped (hreshaped : mutation.reshaped? = some record)
    (hsame : first.registry = second.registry)
    (hfirst : mutation.carryOut first = .ok firstChange)
    (hsecond : mutation.carryOut second = .ok secondChange) :
    ∃ said firstCount secondCount,
      firstChange.params = said ++ [("migrated", .ofNat firstCount)] ∧
        secondChange.params = said ++ [("migrated", .ofNat secondCount)] ∧
        Entries.value? said "backup" = none := by
  obtain ⟨registry, stores⟩ := first
  obtain ⟨_, others⟩ := second
  obtain rfl := hsame
  cases mutation with
  | addField found =>
      unfold carryOut Content.addField at hfirst hsecond
      simp only [bind_eq_ok, pure_eq_ok] at hfirst hsecond
      obtain ⟨definition, hdefinition, rfl⟩ := hfirst
      obtain ⟨other, hother, rfl⟩ := hsecond
      obtain rfl := Except.ok.inj (hdefinition.symm.trans hother)
      exact ⟨[_, _, _], _, _, rfl, rfl, by simp [Entries.value?]⟩
  | setFieldName found field name =>
      unfold carryOut Content.setFieldName at hfirst hsecond
      simp only [bind_eq_ok, Prod.exists, pure_eq_ok] at hfirst hsecond
      obtain ⟨index, own, hown, _, _, rfl⟩ := hfirst
      obtain ⟨position, other, hother, _, _, rfl⟩ := hsecond
      obtain ⟨rfl, rfl⟩ := Prod.mk.inj (Except.ok.inj (hown.symm.trans hother))
      exact ⟨[_, _, _], _, _, rfl, rfl, by simp [Entries.value?]⟩
  | swapFields found left right =>
      unfold carryOut Content.swapFields at hfirst hsecond
      simp only [bind_eq_ok] at hfirst hsecond
      obtain ⟨definition, hdefinition, hfirst⟩ := hfirst
      obtain ⟨other, hother, hsecond⟩ := hsecond
      obtain rfl := Except.ok.inj (hdefinition.symm.trans hother)
      split at hfirst
      next => exact absurd hfirst refuse_ne_ok
      next hnone =>
          rw [hnone] at hsecond
          cases pure_eq_ok.mp hfirst
          cases pure_eq_ok.mp hsecond
          exact ⟨[_, _, _], _, _, rfl, rfl, by simp [Entries.value?]⟩
  | flattenBase found =>
      unfold carryOut Content.flattenBase at hfirst hsecond
      simp only [bind_eq_ok] at hfirst hsecond
      obtain ⟨definition, hdefinition, hfirst⟩ := hfirst
      obtain ⟨other, hother, hsecond⟩ := hsecond
      obtain rfl := Except.ok.inj (hdefinition.symm.trans hother)
      split at hfirst
      next => exact absurd hfirst refuse_ne_ok
      next base hbase =>
          rw [hbase] at hsecond
          simp only [bind_eq_ok] at hfirst hsecond
          obtain ⟨baseDefinition, hget, _, _, hfirst⟩ := hfirst
          obtain ⟨otherBase, hotherGet, _, _, hsecond⟩ := hsecond
          obtain rfl := Except.ok.inj (hget.symm.trans hotherGet)
          split at hfirst
          next => exact absurd hfirst (by simp)
          next ofBase hofBase =>
              rw [hofBase] at hsecond
              simp only [bind_eq_ok, pure_eq_ok] at hfirst hsecond
              obtain ⟨_, _, rfl⟩ := hfirst
              obtain ⟨_, _, rfl⟩ := hsecond
              exact ⟨[_, _, _, _], _, _, rfl, rfl, by simp [Entries.value?]⟩
  | _ => exact absurd hreshaped (by simp [reshaped?])

end Mutation
end LiveSchema
