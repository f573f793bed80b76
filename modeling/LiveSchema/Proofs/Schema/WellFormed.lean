import LiveSchema.Proofs.Schema.Apart
import LiveSchema.Proofs.Schema.ByValue
import LiveSchema.Legality.Records

/-!
# Well-formed registries

A well-formed registry is formed; base types lead in no circle; no record hides a field that it
inherits; no record holds itself by value; and no two types have one name.  The built-in types alone
are well-formed, and this module says what a change of one record has to respect in order to keep it
so.
-/

namespace LiveSchema
namespace Registry

open Relation

variable {registry other : Registry} {record : TypeHandle}

/-- The invariant of the registries that mutations lead to. -/
structure WellFormed (registry : Registry) : Prop extends Formed registry where
  /-- No type is its own ancestor. -/
  inheritance : Acyclic registry.DerivesFrom
  /-- No two effective fields of a record have one name. -/
  names : ∀ handle, (registry.allFieldNames handle).Nodup
  /-- No record holds itself by value. -/
  containment : Acyclic registry.ByValue
  /-- No two types have one name. -/
  typeNames : ∀ a b first second, registry.get? a = some first → registry.get? b = some second →
    first.name = second.name → a = b

theorem WellFormed.isRecord_of_mem_allFields (hwf : registry.WellFormed) {handle : TypeHandle}
    {field : Field} (h : field ∈ registry.allFields handle) : registry.IsRecord handle :=
  hwf.toFormed.isRecord_of_mem_allFields hwf.inheritance h

theorem WellFormed.isRecord_of_byValue (hwf : registry.WellFormed) {part : TypeHandle}
    (h : registry.ByValue record part) : registry.IsRecord record := by
  obtain ⟨field, hfield, -⟩ := h
  exact hwf.isRecord_of_mem_allFields hfield

/-! ## The built-in types alone -/

theorem isRecord_initial (handle : TypeHandle) : ¬ initial.IsRecord handle := by
  rintro ⟨definition, hfound, hrecord⟩
  rw [get?_initial, Option.map_eq_some_iff] at hfound
  obtain ⟨builtin, -, rfl⟩ := hfound
  exact absurd hrecord (by simp)

theorem wellFormed_initial : initial.WellFormed := by
  have hbase : ∀ a b, ¬ initial.DerivesFrom a b := by
    intro a b hstep
    obtain ⟨d, -, hd, -, hrecord, -⟩ := formed_initial.record_of_baseOf? hstep
    exact isRecord_initial a ⟨d, hd, hrecord⟩
  have hacyclic : Acyclic initial.DerivesFrom := by
    intro a hcircle
    obtain ⟨b, hstep, -⟩ := TransGen.head'_iff.mp hcircle
    exact hbase a b hstep
  have hfields : ∀ handle, initial.allFields handle = [] := by
    intro handle
    refine List.eq_nil_iff_forall_not_mem.mpr fun field hfield => ?_
    exact isRecord_initial handle (formed_initial.isRecord_of_mem_allFields hacyclic hfield)
  refine ⟨formed_initial, hacyclic, fun handle => ?_, fun a hcircle => ?_, ?_⟩
  · simp [allFieldNames, hfields]
  · obtain ⟨b, ⟨field, hfield, -⟩, -⟩ := TransGen.head'_iff.mp hcircle
    simp [hfields] at hfield
  · intro a b first second hfirst hsecond hname
    rw [get?_initial, Option.map_eq_some_iff] at hfirst hsecond
    obtain ⟨one, hone, rfl⟩ := hfirst
    obtain ⟨two, htwo, rfl⟩ := hsecond
    -- the names of the built-in types are distinct
    have hnodup : (Builtin.all.map Builtin.name).Nodup := by decide
    have hone' := List.getElem?_map (f := Builtin.name) (l := Builtin.all) (i := a.index)
    have htwo' := List.getElem?_map (f := Builtin.name) (l := Builtin.all) (i := b.index)
    rw [hone] at hone'
    rw [htwo] at htwo'
    have hname' : one.name = two.name := hname
    have hindex : a.index = b.index := by
      have hbound := (List.getElem?_eq_some_iff.mp hone').1
      refine (List.getElem?_inj hbound hnodup).mp ?_
      rw [hone', htwo', Option.map_some, Option.map_some, hname']
    cases a
    cases b
    exact congrArg TypeHandle.mk hindex

/-! ## Containment after a change -/

/-- The built-in types are the same everywhere, and so are the pointers. -/
theorem isPointer_congr (hregistry : registry.Formed) (hother : other.Formed)
    (handle : TypeHandle) : other.IsPointer handle ↔ registry.IsPointer handle := by
  simp only [IsPointer, hregistry.builtin?_iff, hother.builtin?_iff]

theorem holds_congr (hregistry : registry.Formed) (hother : other.Formed)
    {reference : TypeReference} {part : TypeHandle} (h : other.Holds reference part) :
    registry.Holds reference part :=
  h.congr fun handle _ => (isPointer_congr hregistry hother handle).mpr

/-- Nothing that the type holds by value, directly or not, is the record or extends it. -/
def Avoids (registry : Registry) (record : TypeHandle) (type : TypeReference) : Prop :=
  ∀ part reached, registry.Holds type part → ReflTransGen registry.ByValue part reached →
    ¬ registry.Extends reached record

/-- A type in which the search finds neither the record nor what extends it. -/
theorem WellFormed.avoids_of_findOpen? (hwf : registry.WellFormed) {type : TypeReference}
    (hlegal : registry.Legal type)
    (hnone : registry.findOpen? (registry.family record) type = none) :
    registry.Avoids record type := by
  intro part reached hholds hpath hextends
  exact not_mem_opened_of_findOpen? hwf.toFormed hwf.inheritance hlegal hnone hholds hpath
    ((mem_family_iff record reached).mpr hextends)

/-- The search finds nothing in a type that avoids the record. -/
theorem WellFormed.findOpen?_of_avoids (hwf : registry.WellFormed) {type : TypeReference}
    (havoids : registry.Avoids record type) :
    registry.findOpen? (registry.family record) type = none := by
  refine findOpen?_eq_none hwf.toFormed fun part reached hholds hpath hmem => ?_
  exact havoids part reached hholds hpath ((mem_family_iff record reached).mp hmem)

theorem WellFormed.not_isRecord_void (hwf : registry.WellFormed) :
    ¬ registry.IsRecord void := by
  rintro ⟨definition, hfound, hrecord⟩
  obtain rfl := Option.some.inj (hwf.get?_void.symm.trans hfound)
  exact absurd hrecord (by decide)

theorem WellFormed.avoids_void (hwf : registry.WellFormed) (hrecord : registry.IsRecord record) :
    registry.Avoids record (.plain void) := by
  intro part reached hholds hpath hextends
  have hpart : part = void := by
    cases hholds with
    | head => rfl
    | argument _ hmem _ => exact absurd hmem (by simp [TypeReference.plain])
  subst hpart
  -- nothing is reached from a type that is no record, and it extends nothing
  rcases hpath.cases_head with rfl | ⟨b, hstep, -⟩
  · rcases hextends.cases_head with rfl | ⟨base, hbase, -⟩
    · exact hwf.not_isRecord_void hrecord
    · obtain ⟨d, -, hd, -, hrecord', -⟩ := hwf.record_of_baseOf? hbase
      exact hwf.not_isRecord_void ⟨d, hd, hrecord'⟩
  · exact hwf.not_isRecord_void (hwf.isRecord_of_byValue hstep)

/-- The fields that what extends the record gets must have types that were there, or types that avoid
the record. -/
theorem WellFormed.containment_of_new (hwf : registry.WellFormed) (record : TypeHandle)
    (hformed : other.Formed)
    (htypes : ∀ handle, ∀ field ∈ other.allFields handle,
      (∃ old ∈ registry.allFields handle, old.type = field.type) ∨
        registry.Extends handle record ∧ registry.Avoids record field.type) :
    Acyclic other.ByValue := by
  refine hwf.containment.of_new_edges
    (F := fun source => registry.Extends source record)
    (T := fun target => ∃ type, registry.Avoids record type ∧ registry.Holds type target) ?_ ?_
  · rintro source target ⟨field, hfield, hheld⟩
    have hheld' := holds_congr hwf.toFormed hformed hheld
    rcases htypes source field hfield with ⟨old, hold, hsame⟩ | ⟨hextends, havoids⟩
    · exact Or.inl ⟨old, hold, hsame ▸ hheld'⟩
    · exact Or.inr ⟨hextends, field.type, havoids, hheld'⟩
  · rintro target source ⟨type, havoids, hheld⟩ hextends hpath
    exact havoids target source hheld hpath hextends

/-! ## Changes of one type -/

/-- What a change of the base or the own fields of one record has to respect. -/
theorem WellFormed.apart (hwf : registry.WellFormed) (record : TypeHandle)
    (hformed : other.Formed)
    (hagree : AgreeApart registry other record)
    (hinheritance : Acyclic other.DerivesFrom)
    (hnames : ∀ handle, registry.Extends handle record → (other.allFieldNames handle).Nodup)
    (htypes : ∀ handle, registry.Extends handle record → ∀ field ∈ other.allFields handle,
      (∃ old ∈ registry.allFields handle, old.type = field.type) ∨
        registry.Avoids record field.type)
    (htypeNames : ∀ a b first second, other.get? a = some first → other.get? b = some second →
      first.name = second.name → a = b) :
    other.WellFormed := by
  have hsame : ∀ handle, ¬ registry.Extends handle record →
      other.allFields handle = registry.allFields handle := fun handle hout =>
    hagree.allFields_of_not_extends hwf.inheritance hinheritance hout
  refine ⟨hformed, hinheritance, fun handle => ?_, ?_, htypeNames⟩
  · by_cases hextends : registry.Extends handle record
    · exact hnames handle hextends
    · rw [allFieldNames, hsame handle hextends]
      exact hwf.names handle
  · refine hwf.containment_of_new record hformed fun handle field hfield => ?_
    by_cases hextends : registry.Extends handle record
    · rcases htypes handle hextends field hfield with hold | havoids
      · exact Or.inl hold
      · exact Or.inr ⟨hextends, havoids⟩
    · rw [hsame handle hextends] at hfield
      exact Or.inl ⟨field, hfield, rfl⟩

/-- A change that leaves base types and own fields alone has to respect the names of types. -/
theorem WellFormed.of_same_fields (hwf : registry.WellFormed) (hformed : other.Formed)
    (hbase : ∀ handle, other.baseOf? handle = registry.baseOf? handle)
    (hown : ∀ handle, other.ownFields handle = registry.ownFields handle)
    (htypeNames : ∀ a b first second, other.get? a = some first → other.get? b = some second →
      first.name = second.name → a = b) :
    other.WellFormed := by
  have hfields : ∀ handle, other.allFields handle = registry.allFields handle := fun handle =>
    allFields_congr hwf.inheritance hbase fun owner _ => hown owner
  refine ⟨hformed, ?_, fun handle => ?_, ?_, htypeNames⟩
  · exact hwf.inheritance.mono fun a b h => by rwa [DerivesFrom, hbase] at h
  · rw [allFieldNames, hfields]
    exact hwf.names handle
  · refine hwf.containment.mono fun a b => ?_
    rintro ⟨field, hfield, hheld⟩
    rw [hfields] at hfield
    exact ⟨field, hfield, holds_congr hwf.toFormed hformed hheld⟩

/-- A change of definitions that keeps every name keeps the names of types distinct. -/
theorem WellFormed.typeNames_modify (hwf : registry.WellFormed) {handle : TypeHandle}
    {f : TypeDefinition → TypeDefinition} (hname : ∀ definition, (f definition).name = definition.name)
    (a b : TypeHandle) (first second : TypeDefinition)
    (hfirst : (registry.modify handle f).get? a = some first)
    (hsecond : (registry.modify handle f).get? b = some second)
    (hsame : first.name = second.name) : a = b := by
  have hback : ∀ c d, (registry.modify handle f).get? c = some d →
      ∃ old, registry.get? c = some old ∧ old.name = d.name := by
    intro c d hfound
    rcases get?_modify_cases hfound with ⟨old, rfl, hold, rfl⟩ | hold
    · exact ⟨old, hold, (hname old).symm⟩
    · exact ⟨d, hold, rfl⟩
  obtain ⟨one, hone, hone'⟩ := hback a first hfirst
  obtain ⟨two, htwo, htwo'⟩ := hback b second hsecond
  exact hwf.typeNames a b one two hone htwo (hone'.trans (hsame.trans htwo'.symm))

/-- The names of types stay distinct where one type gets a name that no other type has. -/
theorem WellFormed.typeNames_of_free (hwf : registry.WellFormed) (handle : TypeHandle)
    (name : String)
    (hcases : ∀ place definition, other.get? place = some definition →
      place = handle ∧ definition.name = name ∨
        registry.get? place = some definition ∧ definition.name ≠ name)
    (a b : TypeHandle) (first second : TypeDefinition) (hfirst : other.get? a = some first)
    (hsecond : other.get? b = some second) (hsame : first.name = second.name) : a = b := by
  rcases hcases a first hfirst with ⟨ha, hname⟩ | ⟨ha, hname⟩
  · rcases hcases b second hsecond with ⟨hb, -⟩ | ⟨-, hname'⟩
    · rw [ha, hb]
    · exact absurd (hsame.symm.trans hname) hname'
  · rcases hcases b second hsecond with ⟨-, hname'⟩ | ⟨hb, -⟩
    · exact absurd (hsame.trans hname') hname
    · exact hwf.typeNames a b first second ha hb hsame

end Registry
end LiveSchema
