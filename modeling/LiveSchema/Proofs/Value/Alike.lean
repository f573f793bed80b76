import LiveSchema.Proofs.Value.Shape
import Mathlib.Data.List.Perm.Basic

/-!
# Types that look alike in two registries

What a value of a type has to look like depends on the kind of the type and on the names and types of
its effective fields, in any order.  Where these are the same in two registries, the same values
conform.
-/

namespace LiveSchema

/-- What the body of a definition is, as far as values depend on it. -/
inductive BodyKind where
  | enumeration
  | record
  | builtin (builtin : Builtin)

namespace TypeBody

def kind : TypeBody → BodyKind
  | .enumeration _ => .enumeration
  | .record _ => .record
  | .builtin held => .builtin held

end TypeBody

namespace Registry

variable {registry other : Registry} {reference : TypeReference} {value : Json}

/-- The kind of a live type. -/
def kind? (registry : Registry) (handle : TypeHandle) : Option BodyKind :=
  (registry.get? handle).map fun definition => definition.body.kind

/-- The names and types of the effective fields of a type. -/
def slots (registry : Registry) (handle : TypeHandle) : List (String × TypeReference) :=
  (registry.allFields handle).map fun field => (field.name, field.type)

/-- Values of the type look the same in both registries. -/
structure Alike (registry other : Registry) (handle : TypeHandle) : Prop where
  kind : other.kind? handle = registry.kind? handle
  slots : (other.slots handle).Perm (registry.slots handle)

theorem Alike.symm {handle : TypeHandle} (h : Alike registry other handle) :
    Alike other registry handle :=
  ⟨h.kind.symm, h.slots.symm⟩

theorem kind?_of_get? {handle : TypeHandle} {definition : TypeDefinition}
    (h : registry.get? handle = some definition) :
    registry.kind? handle = some definition.body.kind := by
  rw [kind?, h, Option.map_some]

theorem get?_of_kind? {handle : TypeHandle} {kind : BodyKind}
    (h : registry.kind? handle = some kind) :
    ∃ definition, registry.get? handle = some definition ∧ definition.body.kind = kind :=
  Option.map_eq_some_iff.mp h

theorem exists_record_of_kind? {handle : TypeHandle}
    (h : registry.kind? handle = some .record) :
    ∃ definition record, registry.get? handle = some definition ∧
      definition.body = .record record := by
  obtain ⟨definition, hfound, hkind⟩ := get?_of_kind? h
  cases hbody : definition.body with
  | record record => exact ⟨definition, record, hfound, hbody⟩
  | enumeration _ => exact absurd (hbody ▸ hkind) (by rintro ⟨⟩)
  | builtin _ => exact absurd (hbody ▸ hkind) (by rintro ⟨⟩)

theorem mem_slots_iff {handle : TypeHandle} {name : String} {type : TypeReference} :
    (name, type) ∈ registry.slots handle ↔
      ∃ field ∈ registry.allFields handle, field.name = name ∧ field.type = type := by
  simp [slots]

/-- The value of the given type lies directly inside another value. -/
def Inside (registry : Registry) (reference : TypeReference) (value : Json)
    (type : TypeReference) (inner : Json) : Prop :=
  ∃ child ∈ registry.childValues reference value, child.type = type ∧ child.value = inner

theorem forall_inside_iff {motive : TypeReference → Json → Prop} :
    (∀ type inner, registry.Inside reference value type inner → motive type inner) ↔
      ∀ child ∈ registry.childValues reference value, motive child.type child.value := by
  constructor
  · intro h child hchild
    exact h child.type child.value ⟨child, hchild, rfl, rfl⟩
  · rintro h type inner ⟨child, hchild, rfl, rfl⟩
    exact h child hchild

/-- A value conforms if its outermost level fits and everything directly inside it conforms. -/
theorem conforms_iff_inside : registry.conforms reference value = true ↔
    registry.OuterFits reference value ∧
      ∀ type inner, registry.Inside reference value type inner →
        registry.conforms type inner = true := by
  rw [conforms_iff, ← forall_inside_iff (motive := fun type inner => registry.conforms type inner)]

theorem Inside.conforms {type : TypeReference} {inner : Json}
    (h : registry.Inside reference value type inner)
    (hconforms : registry.conforms reference value = true) :
    registry.conforms type inner = true :=
  (conforms_iff_inside.mp hconforms).2 type inner h

/-! ## Records -/

section Record

variable {entries : Entries}

theorem parts_of_record
    (hkind : registry.kind? reference.handle = some .record) :
    registry.parts reference (.object entries) =
      .fields (registry.allFields reference.handle) entries := by
  obtain ⟨definition, record, hfound, hbody⟩ := exists_record_of_kind? hkind
  simp [parts, hfound, hbody]

theorem mem_childValues_of_record {child : Child}
    (hkind : registry.kind? reference.handle = some .record) :
    child ∈ registry.childValues reference (.object entries) ↔
      ∃ field ∈ registry.allFields reference.handle,
        ∃ inner, Entries.value? entries field.name = some inner ∧
          child = ⟨field.type, .field field.name, inner⟩ := by
  rw [childValues, parts_of_record hkind]
  simp only [Parts.children, List.mem_filterMap, Option.map_eq_some_iff]
  simp only [eq_comm]

theorem inside_record_iff {type : TypeReference} {inner : Json}
    (hkind : registry.kind? reference.handle = some .record) :
    registry.Inside reference (.object entries) type inner ↔
      ∃ name, (name, type) ∈ registry.slots reference.handle ∧
        Entries.value? entries name = some inner := by
  obtain ⟨definition, record, hfound, hbody⟩ := exists_record_of_kind? hkind
  simp only [Inside, childValues, parts, hfound, hbody, Parts.children, List.mem_filterMap,
    Option.map_eq_some_iff, mem_slots_iff]
  constructor
  · rintro ⟨child, ⟨field, hfield, held, hheld, rfl⟩, rfl, rfl⟩
    exact ⟨field.name, ⟨field, hfield, rfl, rfl⟩, hheld⟩
  · rintro ⟨name, ⟨field, hfield, rfl, rfl⟩, hheld⟩
    exact ⟨⟨field.type, .field field.name, inner⟩, ⟨field, hfield, inner, hheld, rfl⟩, rfl, rfl⟩

theorem outerFits_record_iff (hkind : registry.kind? reference.handle = some .record) :
    registry.OuterFits reference (.object entries) ↔
      entries.length = (registry.slots reference.handle).length ∧
        ∀ name type, (name, type) ∈ registry.slots reference.handle →
          ∃ inner, Entries.value? entries name = some inner := by
  obtain ⟨definition, record, hfound, hbody⟩ := exists_record_of_kind? hkind
  simp only [OuterFits, hfound, hbody, mem_slots_iff]
  refine and_congr (by simp [slots]) ?_
  constructor
  · rintro h name type ⟨field, hfield, rfl, -⟩
    exact h field hfield
  · intro h field hfield
    exact h field.name field.type ⟨field, hfield, rfl, rfl⟩

/-- A value of a record type is an object. -/
theorem exists_object_of_outerFits (hkind : registry.kind? reference.handle = some .record)
    (h : registry.OuterFits reference value) : ∃ entries, value = .object entries := by
  obtain ⟨definition, record, hfound, hbody⟩ := exists_record_of_kind? hkind
  unfold OuterFits at h
  simp only [hfound, hbody] at h
  cases value with
  | object entries => exact ⟨entries, rfl⟩
  | _ => exact absurd h (by simp)

theorem conforms_object_iff (hkind : registry.kind? reference.handle = some .record) :
    registry.conforms reference (.object entries) = true ↔
      entries.length = (registry.slots reference.handle).length ∧
        ∀ name type, (name, type) ∈ registry.slots reference.handle →
          ∃ inner, Entries.value? entries name = some inner ∧
            registry.conforms type inner = true := by
  rw [conforms_iff_inside, outerFits_record_iff hkind, and_assoc]
  refine and_congr_right fun _ => ?_
  constructor
  · rintro ⟨hexists, hinside⟩ name type hslot
    obtain ⟨inner, hinner⟩ := hexists name type hslot
    exact ⟨inner, hinner, hinside type inner ((inside_record_iff hkind).mpr ⟨name, hslot, hinner⟩)⟩
  · intro h
    refine ⟨fun name type hslot => ?_, fun type inner hinside => ?_⟩
    · obtain ⟨inner, hinner, -⟩ := h name type hslot
      exact ⟨inner, hinner⟩
    · obtain ⟨name, hslot, hinner⟩ := (inside_record_iff hkind).mp hinside
      obtain ⟨found, hfound, hconforms⟩ := h name type hslot
      exact Option.some.inj (hfound.symm.trans hinner) ▸ hconforms

end Record

/-! ## Alike types -/

/-- Everything but the fields of records depends on the kind of the type alone. -/
theorem outerFits_and_parts_of_kind
    (hkind : other.kind? reference.handle = registry.kind? reference.handle)
    (hrecord : registry.kind? reference.handle ≠ some .record) :
    (other.OuterFits reference value ↔ registry.OuterFits reference value) ∧
      other.parts reference value = registry.parts reference value := by
  unfold OuterFits parts
  cases hold : registry.get? reference.handle with
  | none =>
      rw [kind?, kind?, hold, Option.map_none, Option.map_eq_none_iff] at hkind
      rw [hkind]
      exact ⟨Iff.rfl, rfl⟩
  | some old =>
      rw [kind?_of_get? hold] at hkind hrecord
      obtain ⟨new, hnew, hsame⟩ := get?_of_kind? hkind
      simp only [hnew]
      cases holdBody : old.body with
      | record record => exact absurd (by rw [holdBody]; rfl) hrecord
      | enumeration enumeration =>
          rw [holdBody] at hsame
          cases hnewBody : new.body with
          | enumeration _ => exact ⟨Iff.rfl, rfl⟩
          | record _ => exact absurd (hnewBody ▸ hsame) (by rintro ⟨⟩)
          | builtin _ => exact absurd (hnewBody ▸ hsame) (by rintro ⟨⟩)
      | builtin builtin =>
          rw [holdBody] at hsame
          cases hnewBody : new.body with
          | builtin found =>
              rw [hnewBody] at hsame
              obtain rfl : found = builtin := BodyKind.builtin.inj hsame
              cases value with
              | array items =>
                  -- a variant is an array of exactly two values
                  rcases items with _ | ⟨first, _ | ⟨second, _ | ⟨third, rest⟩⟩⟩ <;>
                    cases found <;> exact ⟨Iff.rfl, rfl⟩
              | _ => cases found <;> exact ⟨Iff.rfl, rfl⟩
          | enumeration _ => exact absurd (hnewBody ▸ hsame) (by rintro ⟨⟩)
          | record _ => exact absurd (hnewBody ▸ hsame) (by rintro ⟨⟩)

/-- Where kinds and effective fields are the same, values have the same parts. -/
theorem parts_congr (hkind : other.kind? reference.handle = registry.kind? reference.handle)
    (hfields : other.allFields reference.handle = registry.allFields reference.handle) :
    other.parts reference value = registry.parts reference value := by
  by_cases hrecord : registry.kind? reference.handle = some .record
  · cases value with
    | object entries =>
        rw [parts_of_record hrecord, parts_of_record (hkind.trans hrecord), hfields]
    | _ =>
        obtain ⟨_, _, hold, holdBody⟩ := exists_record_of_kind? hrecord
        obtain ⟨_, _, hnew, hnewBody⟩ := exists_record_of_kind? (hkind.trans hrecord)
        simp only [parts, hold, holdBody, hnew, hnewBody]
  · exact (outerFits_and_parts_of_kind hkind hrecord).2

theorem Alike.outerFits (h : Alike registry other reference.handle)
    (hfits : registry.OuterFits reference value) : other.OuterFits reference value := by
  by_cases hrecord : registry.kind? reference.handle = some .record
  · obtain ⟨entries, rfl⟩ := exists_object_of_outerFits hrecord hfits
    obtain ⟨hlength, hnames⟩ := (outerFits_record_iff hrecord).mp hfits
    refine (outerFits_record_iff (h.kind.trans hrecord)).mpr ⟨?_, fun name type hslot => ?_⟩
    · rw [hlength, h.slots.length_eq]
    · exact hnames name type (h.slots.mem_iff.mp hslot)
  · exact (outerFits_and_parts_of_kind h.kind hrecord).1.mpr hfits

theorem Alike.inside {type : TypeReference} {inner : Json}
    (h : Alike registry other reference.handle)
    (hinside : registry.Inside reference value type inner) :
    other.Inside reference value type inner := by
  by_cases hrecord : registry.kind? reference.handle = some .record
  · cases value with
    | object entries =>
        obtain ⟨name, hslot, hvalue⟩ := (inside_record_iff hrecord).mp hinside
        exact (inside_record_iff (h.kind.trans hrecord)).mpr
          ⟨name, h.slots.mem_iff.mpr hslot, hvalue⟩
    | _ =>
        obtain ⟨definition, record, hfound, hbody⟩ := exists_record_of_kind? hrecord
        obtain ⟨child, hchild, -⟩ := hinside
        simp [childValues, parts, hfound, hbody, Parts.children] at hchild
  · obtain ⟨child, hchild, hsame⟩ := hinside
    refine ⟨child, ?_, hsame⟩
    rwa [childValues, (outerFits_and_parts_of_kind h.kind hrecord).2]

/-- Values that conform go on conforming where all types met on the way look alike. -/
theorem conforms_of_alike (met : TypeReference → Json → Prop)
    (halike : ∀ reference value, met reference value → Alike registry other reference.handle)
    (hinside : ∀ reference value type inner, met reference value →
      registry.Inside reference value type inner → met type inner)
    (reference : TypeReference) (value : Json) (hmet : met reference value)
    (h : registry.conforms reference value = true) : other.conforms reference value = true := by
  obtain ⟨houter, -⟩ := conforms_iff.mp h
  have hsame := halike reference value hmet
  refine conforms_iff.mpr ⟨hsame.outerFits houter, fun child hchild => ?_⟩
  have hold : registry.Inside reference value child.type child.value :=
    hsame.symm.inside ⟨child, hchild, rfl, rfl⟩
  exact conforms_of_alike met halike hinside child.type child.value
    (hinside reference value child.type child.value hmet hold) (hold.conforms h)
termination_by (sizeOf value, sizeOf reference)
decreasing_by exact child_smaller hchild

end Registry
end LiveSchema
