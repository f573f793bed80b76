import LiveSchema.Schema.NameIndex
import LiveSchema.Proofs.Schema.Edits

/-!
# The index of names agrees with the definitions

The index has a pair for every live type and its name, and no other.  Declaring a type under a free
name, renaming it to a free name and removing it keep this, so the index answers what a search through
the definitions answers.
-/

namespace LiveSchema
namespace NameIndex

variable {index : NameIndex} {registry : Registry} {name : String} {handle : TypeHandle}

theorem mem_insert {pair : String × TypeHandle} :
    pair ∈ (index.insert name handle).pairs ↔
      pair = (name, handle) ∨ pair ∈ index.pairs ∧ pair.1 ≠ name ∧ pair.2 ≠ handle := by
  simp [insert]

theorem mem_erase {pair : String × TypeHandle} :
    pair ∈ (index.erase handle).pairs ↔ pair ∈ index.pairs ∧ pair.2 ≠ handle := by
  simp [erase]

/-- The pairs are the live types with their names. -/
def Indexes (index : NameIndex) (registry : Registry) : Prop :=
  ∀ name handle, (name, handle) ∈ index.pairs ↔
    ∃ definition, registry.get? handle = some definition ∧ definition.name = name

theorem indexes_initial : initial.Indexes .initial := by
  have hpairs : initial.pairs =
      (Builtin.all.zipIdx.map fun entry => (entry.1.name, TypeHandle.mk entry.2)).reverse := by
    decide +kernel
  intro name handle
  rw [hpairs, List.mem_reverse, List.mem_map, Registry.get?_initial]
  constructor
  · rintro ⟨⟨builtin, place⟩, hmem, hsame⟩
    obtain ⟨rfl, rfl⟩ := Prod.mk.inj hsame
    exact ⟨.ofBuiltin builtin, by rw [List.mem_zipIdx_iff_getElem?.mp hmem]; rfl, rfl⟩
  · rintro ⟨definition, hfound, rfl⟩
    obtain ⟨builtin, hplace, rfl⟩ := Option.map_eq_some_iff.mp hfound
    exact ⟨(builtin, handle.index), List.mem_zipIdx_iff_getElem?.mpr hplace, rfl⟩

/-- Names and live types that are the same keep the index. -/
theorem Indexes.congr (h : index.Indexes registry) {other : Registry}
    (hnames : ∀ handle, (other.get? handle).map TypeDefinition.name =
      (registry.get? handle).map TypeDefinition.name) : index.Indexes other := by
  intro name handle
  rw [h name handle]
  simp only [← Option.map_eq_some_iff, hnames]

theorem Indexes.declare (h : index.Indexes registry) {definition : TypeDefinition}
    (hfree : registry.resolve? definition.name = none) :
    (index.insert definition.name registry.nextHandle).Indexes (registry.declare definition) := by
  have hunused := Registry.resolve?_eq_none.mp hfree
  intro name handle
  rw [mem_insert, h name handle, Registry.get?_declare]
  by_cases hnext : handle = registry.nextHandle
  · simp [hnext, Registry.get?_nextHandle, eq_comm]
  · simp only [Prod.mk.injEq, hnext, and_false, false_or, if_false, ne_eq, not_false_eq_true,
      and_true, and_iff_left_iff_imp, forall_exists_index, and_imp]
    rintro other hother rfl
    exact hunused handle other hother

theorem Indexes.rename (h : index.Indexes registry) (hwf : registry.WellFormed)
    {definition : TypeDefinition} (hfound : registry.get? handle = some definition)
    (hfree : ∀ existing, registry.resolve? name = some existing → existing = handle) :
    ((index.erase handle).insert name handle).Indexes (registry.rename handle name) := by
  intro other place
  rw [mem_insert, mem_erase, h other place, Registry.rename, Registry.get?_modify]
  by_cases hplace : place = handle
  · simp [hplace, hfound, eq_comm]
  · -- no other type has the name, so nothing else is dropped
    have hother : ∀ found, registry.get? place = some found → found.name ≠ name := by
      rintro found hfound rfl
      exact hplace (hfree place (hwf.resolve?_eq_some.mpr ⟨found, hfound, rfl⟩))
    simp only [Prod.mk.injEq, hplace, and_false, false_or, if_false, ne_eq, not_false_eq_true,
      and_true, and_iff_left_iff_imp, forall_exists_index, and_imp]
    rintro found hfound rfl
    exact hother found hfound

theorem Indexes.remove (h : index.Indexes registry) (handle : TypeHandle) :
    (index.erase handle).Indexes (registry.remove handle) := by
  intro name other
  rw [mem_erase, h name other, Registry.get?_remove]
  by_cases hsame : other = handle <;> simp [hsame]

/-- An index that is in step answers what a search through the definitions answers. -/
theorem Indexes.handle?_eq_resolve? (h : index.Indexes registry) (hwf : registry.WellFormed)
    (name : String) : index.handle? name = registry.resolve? name := by
  refine Option.ext fun handle => ?_
  rw [hwf.resolve?_eq_some, ← h name handle, handle?, Option.map_eq_some_iff]
  constructor
  · rintro ⟨⟨found, place⟩, hpair, rfl⟩
    have hname : found = name := by simpa using List.find?_some hpair
    exact hname ▸ List.mem_of_find?_eq_some hpair
  · intro hmem
    cases hfind : index.pairs.find? fun pair => pair.1 = name with
    | none => simpa using List.find?_eq_none.mp hfind _ hmem
    | some pair =>
        obtain ⟨found, place⟩ := pair
        have hname : found = name := by simpa using List.find?_some hfind
        obtain ⟨first, hfirst, hfirstName⟩ :=
          (h found place).mp (List.mem_of_find?_eq_some hfind)
        obtain ⟨second, hsecond, hsecondName⟩ := (h name handle).mp hmem
        exact ⟨_, rfl, hwf.typeNames place handle first second hfirst hsecond
          (by rw [hfirstName, hsecondName, hname])⟩

theorem Indexes.name?_eq (h : index.Indexes registry) (handle : TypeHandle) :
    index.name? handle = (registry.get? handle).map TypeDefinition.name := by
  refine Option.ext fun name => ?_
  rw [Option.map_eq_some_iff, ← h name handle, name?, Option.map_eq_some_iff]
  constructor
  · rintro ⟨⟨found, place⟩, hpair, rfl⟩
    have hplace : place = handle := by simpa using List.find?_some hpair
    exact hplace ▸ List.mem_of_find?_eq_some hpair
  · intro hmem
    cases hfind : index.pairs.find? fun pair => pair.2 = handle with
    | none => simpa using List.find?_eq_none.mp hfind _ hmem
    | some pair =>
        obtain ⟨found, place⟩ := pair
        have hplace : place = handle := by simpa using List.find?_some hfind
        obtain ⟨first, hfirst, hfirstName⟩ :=
          (h found place).mp (List.mem_of_find?_eq_some hfind)
        obtain ⟨second, hsecond, hsecondName⟩ := (h name handle).mp hmem
        obtain rfl := Option.some.inj (hfirst.symm.trans (hplace ▸ hsecond))
        exact ⟨_, rfl, hfirstName.symm.trans hsecondName⟩

end NameIndex
end LiveSchema
