import LiveSchema.Legality.Arguments
import LiveSchema.Proofs.Checks
import LiveSchema.Proofs.Value.Default

/-!
# The size of a default

The cases of the recursion that computes the size of a default, and what a size below the limit says:
every default that is counted on the way ends.
-/

namespace LiveSchema

/-- The check of the default size passes just if the size is not too large. -/
theorem Legality.checkDefaultSize_eq_ok {registry : Registry} {reference : TypeReference} :
    checkDefaultSize registry reference = .ok () ↔
      registry.defaultSize reference ≤ maxDefaultValues := by
  rw [checkDefaultSize]
  split
  next hlarge => exact ⟨fun h => absurd h refuse_ne_ok, fun h => absurd hlarge (Nat.not_lt.mpr h)⟩
  next hsmall => exact ⟨fun _ => Nat.not_lt.mp hsmall, fun _ => rfl⟩

namespace Registry

open Relation

variable {registry : Registry} {reference part : TypeReference} {definition : TypeDefinition}
  {within : List TypeHandle}

/-! ## The cases of the recursion -/

theorem sizeWithin_of_none (hnone : registry.get? reference.handle = none) :
    registry.sizeWithin within reference = 1 := by
  rw [sizeWithin]
  split
  next => rfl
  next hfound => exact absurd (hnone.symm.trans hfound) (by simp)

/-- The size of the default of a built-in type that does not depend on its arguments. -/
def simpleSize : Builtin → Nat
  | .vector _ size => 1 + size.count
  | _ => 1

/-- The size of the default of an argument; a missing argument counts as one value. -/
def sizeOfArgument (registry : Registry) (within : List TypeHandle) : Option TypeReference → Nat
  | some inner => registry.sizeWithin within inner
  | none => 1

theorem sizeWithin_of_get? (hfound : registry.get? reference.handle = some definition) :
    registry.sizeWithin within reference =
      match definition.body with
      | .enumeration _ => 1
      | .record _ =>
        if reference.handle ∈ within then sizeLimit
        else registry.sizeOfFields (reference.handle :: within) 1
          (registry.allFields reference.handle)
      | .builtin .array =>
        addSizes (mulSizes ((reference.sizeArgument? 1).getD 0).toNat
          (registry.sizeOfArgument within (reference.typeArgument? 0))) 1
      | .builtin .variant =>
        match reference.typeArgument? 0 with
        | some inner => addSizes (registry.sizeWithin within inner) 1
        | none => 1
      | .builtin builtin => simpleSize builtin := by
  rw [sizeWithin]
  split
  next hnone => exact absurd (hfound.symm.trans hnone) (by simp)
  next found hfound' =>
      obtain rfl := Option.some.inj (hfound.symm.trans hfound')
      cases definition.body with
      | enumeration enumeration => rfl
      | record record => simp
      | builtin builtin =>
          cases builtin with
          | array | variant =>
              simp only
              split
              next inner hinner => simp only [hinner, sizeOfArgument]
              next hnone => simp only [hnone, sizeOfArgument]
          | _ => rfl

theorem sizeWithin_enumeration {enumeration : Enumeration}
    (hfound : registry.get? reference.handle = some definition)
    (hbody : definition.body = .enumeration enumeration) :
    registry.sizeWithin within reference = 1 := by
  rw [sizeWithin_of_get? hfound, hbody]

theorem sizeWithin_simple {builtin : Builtin}
    (hfound : registry.get? reference.handle = some definition)
    (hbody : definition.body = .builtin builtin) (harray : builtin ≠ .array)
    (hvariant : builtin ≠ .variant) :
    registry.sizeWithin within reference = simpleSize builtin := by
  rw [sizeWithin_of_get? hfound, hbody]
  cases builtin <;> first | rfl | contradiction

theorem sizeWithin_record {record : Record}
    (hfound : registry.get? reference.handle = some definition)
    (hbody : definition.body = .record record) :
    registry.sizeWithin within reference =
      if reference.handle ∈ within then sizeLimit
      else registry.sizeOfFields (reference.handle :: within) 1
        (registry.allFields reference.handle) := by
  rw [sizeWithin_of_get? hfound, hbody]

theorem sizeWithin_array (hfound : registry.get? reference.handle = some definition)
    (hbody : definition.body = .builtin .array) :
    registry.sizeWithin within reference =
      addSizes (mulSizes ((reference.sizeArgument? 1).getD 0).toNat
        (registry.sizeOfArgument within (reference.typeArgument? 0))) 1 := by
  rw [sizeWithin_of_get? hfound, hbody]

theorem sizeWithin_variant (hfound : registry.get? reference.handle = some definition)
    (hbody : definition.body = .builtin .variant) {inner : TypeReference}
    (hargument : reference.typeArgument? 0 = some inner) :
    registry.sizeWithin within reference = addSizes (registry.sizeWithin within inner) 1 := by
  rw [sizeWithin_of_get? hfound, hbody]
  simp only [hargument]

theorem sizeOfFields_nil (total : Nat) : registry.sizeOfFields within total [] = total := by
  rw [sizeOfFields]

theorem sizeOfFields_cons (total : Nat) (field : Field) (rest : List Field) :
    registry.sizeOfFields within total (field :: rest) =
      registry.sizeOfFields within (addSizes total (registry.sizeWithin within field.type)) rest := by
  rw [sizeOfFields]

theorem simpleSize_le (builtin : Builtin) : simpleSize builtin ≤ 5 := by
  cases builtin with
  | vector component size => cases size <;> simp [simpleSize, VectorSize.count]
  | _ => simp [simpleSize]

/-- The default of a record with one field, whose type is simple, holds the default of this type, and is
small enough for a root. -/
theorem default_of_single_field {record : Record} {field : Field} {inner : TypeDefinition}
    {builtin : Builtin} (hfound : registry.get? reference.handle = some definition)
    (hbody : definition.body = .record record)
    (hfields : registry.allFields reference.handle = [field])
    (hinner : registry.get? field.type.handle = some inner)
    (hsimple : inner.body = .builtin builtin) (harray : builtin ≠ .array)
    (hvariant : builtin ≠ .variant) :
    registry.defaultValue reference = .object [(field.name, simpleDefault builtin)] ∧
      registry.defaultSize reference ≤ maxDefaultValues := by
  constructor
  · rw [defaultValue, default?, defaultWithin?_record hfound hbody, hfields, if_neg (by simp),
      defaultEntries?_cons, defaultWithin?_simple hinner hsimple harray hvariant,
      Option.bind_some, defaultEntries?_nil]
    rfl
  · have hsize : addSizes 1 (simpleSize builtin) ≤ 6 :=
      Nat.le_trans (Nat.min_le_left _ _) (Nat.add_le_add_left (simpleSize_le builtin) 1)
    rw [defaultSize, sizeWithin_record hfound hbody, hfields, if_neg (by simp), sizeOfFields_cons,
      sizeWithin_simple hinner hsimple harray hvariant, sizeOfFields_nil]
    exact Nat.le_trans hsize (by decide)

/-! ## Sizes below the limit -/

theorem lt_of_addSizes_lt {m n : Nat} (h : addSizes m n < sizeLimit) :
    m < sizeLimit ∧ n < sizeLimit := by
  unfold addSizes at h
  omega

theorem lt_of_mulSizes_lt {m n : Nat} (hm : 0 < m) (h : mulSizes m n < sizeLimit) :
    n < sizeLimit := by
  have hle : n ≤ m * n := Nat.le_mul_of_pos_left n hm
  unfold mulSizes at h
  omega

/-- A sum below the limit has no part that is not. -/
theorem lt_of_sizeOfFields_lt {total : Nat} {fields : List Field}
    (h : registry.sizeOfFields within total fields < sizeLimit) :
    total < sizeLimit ∧ ∀ field ∈ fields, registry.sizeWithin within field.type < sizeLimit := by
  induction fields generalizing total with
  | nil =>
      rw [sizeOfFields_nil] at h
      exact ⟨h, fun field hfield => absurd hfield List.not_mem_nil⟩
  | cons first rest ih =>
      rw [sizeOfFields_cons] at h
      obtain ⟨hsum, hrest⟩ := ih h
      obtain ⟨htotal, hfirst⟩ := lt_of_addSizes_lt hsum
      exact ⟨htotal, List.forall_mem_cons.mpr ⟨hfirst, hrest⟩⟩

/-! ## What is counted -/

/-- An array type without elements. -/
def IsEmptyArray (registry : Registry) (reference : TypeReference) : Prop :=
  registry.builtin? reference.handle = some .array ∧
    ((reference.sizeArgument? 1).getD 0).toNat = 0

/-- The default of the second type is built for that of the first, and counts for its size.  The
element of an array without elements is built, but does not count. -/
def Counts (registry : Registry) (whole part : TypeReference) : Prop :=
  registry.AsksFor whole part ∧ ¬ registry.IsEmptyArray whole

/-- What counts for a size below the limit has itself such a size. -/
theorem Counts.sizeWithin_lt (h : registry.Counts reference part)
    (hsize : registry.sizeWithin within reference < sizeLimit) :
    (TemplateArgument.type part ∈ reference.arguments ∧
        registry.sizeWithin within part < sizeLimit) ∨
      (registry.IsRecord reference.handle ∧ reference.handle ∉ within ∧
        registry.sizeWithin (reference.handle :: within) part < sizeLimit) := by
  obtain ⟨hasks, hfull⟩ := h
  obtain ⟨definition, hfound⟩ := hasks.get?
  cases hrecord : definition.isRecord with
  | true =>
      obtain ⟨record, hbody⟩ := TypeDefinition.isRecord_iff.mp hrecord
      obtain ⟨field, hfield, rfl⟩ := hasks.exists_field hfound hbody
      rw [sizeWithin_record hfound hbody] at hsize
      split at hsize
      · exact absurd hsize (Nat.lt_irrefl _)
      next hfresh =>
          exact Or.inr ⟨⟨definition, hfound, hrecord⟩, hfresh,
            (lt_of_sizeOfFields_lt hsize).2 field hfield⟩
  | false =>
      obtain ⟨hbody, hargument⟩ := hasks.typeArgument? hfound hrecord
      refine Or.inl ⟨TypeReference.mem_of_typeArgument? hargument, ?_⟩
      rcases hbody with hbody | hbody
      · rw [sizeWithin_array hfound hbody, hargument] at hsize
        have hcount : 0 < ((reference.sizeArgument? 1).getD 0).toNat :=
          Nat.pos_of_ne_zero fun hzero =>
            hfull ⟨builtin?_eq_some.mpr ⟨definition, hfound, hbody⟩, hzero⟩
        exact lt_of_mulSizes_lt hcount (lt_of_addSizes_lt hsize).1
      · rw [sizeWithin_variant hfound hbody hargument] at hsize
        exact (lt_of_addSizes_lt hsize).1

/-- Below the limit, counting never goes on for ever. -/
theorem acc_counts_of_sizeWithin_lt (h : registry.sizeWithin within reference < sizeLimit) :
    Acc (fun part whole => registry.Counts whole part) reference := by
  induction within, reference using building_induction registry with
  | step within reference inner inside =>
      refine Acc.intro reference fun part hcounts => ?_
      rcases hcounts.sizeWithin_lt h with ⟨hmem, hpart⟩ | ⟨hrecord, hfresh, hpart⟩
      · exact inner part hmem hpart
      · exact inside hrecord hfresh part hpart

/-- For a type that passes the check of the default size, counting never goes on for ever. -/
theorem acc_counts_of_checkDefaultSize
    (h : Legality.checkDefaultSize registry reference = .ok ()) :
    Acc (fun part whole => registry.Counts whole part) reference := by
  have hlimit : maxDefaultValues < sizeLimit := by decide
  exact acc_counts_of_sizeWithin_lt
    (Nat.lt_of_le_of_lt (Legality.checkDefaultSize_eq_ok.mp h) hlimit)

/-! ## What is not counted -/

/-- What an array asks for is its element. -/
theorem AsksFor.element_of_isEmptyArray (h : registry.AsksFor reference part)
    (hempty : registry.IsEmptyArray reference) : reference.typeArgument? 0 = some part := by
  obtain ⟨definition, hfound, hbody⟩ := builtin?_eq_some.mp hempty.1
  refine (h.typeArgument? hfound ?_).2
  simp [TypeDefinition.isRecord, TypeDefinition.record?, hbody]

/-- Where counting ends, so does building, if it ends for the elements that are not counted. -/
theorem ends_of_acc_counts (hacc : Acc (fun part whole => registry.Counts whole part) reference)
    (h : ∀ array element, ReflTransGen registry.Counts reference array →
      registry.IsEmptyArray array → array.typeArgument? 0 = some element →
        registry.Ends element) : registry.Ends reference := by
  induction hacc with
  | intro reference _ ih =>
      refine Acc.intro reference fun part hasks => ?_
      by_cases hempty : registry.IsEmptyArray reference
      · exact h reference part .refl hempty (hasks.element_of_isEmptyArray hempty)
      · have hcounts : registry.Counts reference part := ⟨hasks, hempty⟩
        exact ih part hcounts fun array element hpath => h array element (.head hcounts hpath)

end Registry
end LiveSchema
