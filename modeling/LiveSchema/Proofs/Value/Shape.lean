import LiveSchema.Proofs.Schema.Lookup
import LiveSchema.Value.Shape

/-!
# Conformance, one level at a time

A value conforms to its type if its outermost level fits and the values directly inside it conform to
theirs.  So whatever keeps the outermost level and the children conforming keeps the value conforming.
-/

namespace LiveSchema
namespace Registry

variable {registry other : Registry} {reference : TypeReference} {value : Json}
  {definition : TypeDefinition}

/-- The outermost level of a value has the shape that its type calls for. -/
def OuterFits (registry : Registry) (reference : TypeReference) (value : Json) : Prop :=
  match registry.get? reference.handle with
  | none => False
  | some definition =>
    match definition.body, value with
    | .enumeration _, value => value.isInteger = true
    | .record _, .object entries =>
      entries.length = (registry.allFields reference.handle).length ∧
        ∀ field ∈ registry.allFields reference.handle,
          ∃ inner, Entries.value? entries field.name = some inner
    | .record _, _ => False
    | .builtin .list, .array _ => ∃ element, reference.typeArgument? 0 = some element
    | .builtin .array, .array items =>
      (∃ element, reference.typeArgument? 0 = some element) ∧
        (reference.sizeArgument? 1).map UInt64.toNat = some items.length
    | .builtin .own, value =>
      value.isNull = true ∨ ∃ target, reference.typeArgument? 0 = some target
    | .builtin .variant, .array [index, _] =>
      ∃ alternative, index.unsigned?.bind reference.typeArgument? = some alternative
    | .builtin .map, .array pairs =>
      ∀ pair ∈ pairs, (∃ key mapped, pair = .array [key, mapped]) ∧
        (∃ keyType, reference.typeArgument? 0 = some keyType) ∧
          ∃ mappedType, reference.typeArgument? 1 = some mappedType
    | .builtin builtin, value => simpleConforms builtin value = true

/-- What a map holds, in the terms of its pairs. -/
theorem forall_children_pairs {keyType mappedType : TypeReference} {pairs : List Json}
    {motive : Child → Prop} {value : Json} :
    (∀ child ∈ (Parts.pairs keyType mappedType pairs).children value, motive child) ↔
      ∀ index pair, pairs[index]? = some pair →
        ∀ child ∈ Parts.childrenOfPair keyType mappedType index pair, motive child := by
  simp only [Parts.children, List.mem_flatMap, Prod.exists, List.mem_zipIdx_iff_getElem?]
  constructor
  · intro h index pair hpair child hchild
    exact h child ⟨pair, index, hpair, hchild⟩
  · rintro h child ⟨pair, index, hpair, hchild⟩
    exact h index pair hpair child hchild

theorem forall_children_items (element : TypeReference) (items : List Json) (value : Json)
    {motive : TypeReference → Json → Prop} :
    (∀ child ∈ (Parts.items element items).children value, motive child.type child.value) ↔
      ∀ item ∈ items, motive element item := by
  simp only [Parts.children, List.mem_map, Prod.exists, List.mem_zipIdx_iff_getElem?]
  constructor
  · intro h item hmem
    obtain ⟨index, hindex⟩ := List.mem_iff_getElem?.mp hmem
    exact h _ ⟨item, index, hindex, rfl⟩
  · rintro h child ⟨item, index, hindex, rfl⟩
    exact h item (List.mem_of_getElem? hindex)

theorem forall_children_fields (fields : List Field) (entries : Entries) (value : Json)
    {motive : TypeReference → Json → Prop} :
    (∀ child ∈ (Parts.fields fields entries).children value, motive child.type child.value) ↔
      ∀ field ∈ fields, ∀ inner, Entries.value? entries field.name = some inner →
        motive field.type inner := by
  simp only [Parts.children, List.mem_filterMap, Option.map_eq_some_iff]
  constructor
  · intro h field hfield inner hinner
    exact h _ ⟨field, hfield, inner, hinner, rfl⟩
  · rintro h child ⟨field, hfield, inner, hinner, rfl⟩
    exact h field hfield inner hinner

/-- A map entry has a key and a mapped value as its children. -/
theorem forall_children_of_pair {keyType mappedType : TypeReference} {index : Nat}
    {key mapped : Json} {motive : TypeReference → Json → Prop} :
    (∀ child ∈ Parts.childrenOfPair keyType mappedType index (.array [key, mapped]),
        motive child.type child.value) ↔ motive keyType key ∧ motive mappedType mapped := by
  simp [Parts.childrenOfPair]

/-- The pairs of a map conform if each is a pair and all keys and mapped values conform. -/
theorem forall_pairs_iff (keyType mappedType : TypeReference) (pairs : List Json) (value : Json)
    {motive : TypeReference → Json → Prop} :
    (∀ pair ∈ pairs, ∃ key mapped, pair = .array [key, mapped] ∧ motive keyType key ∧
        motive mappedType mapped) ↔
      (∀ pair ∈ pairs, ∃ key mapped, pair = .array [key, mapped]) ∧
        ∀ child ∈ (Parts.pairs keyType mappedType pairs).children value,
          motive child.type child.value := by
  constructor
  · intro h
    refine ⟨fun pair hpair => ?_, forall_children_pairs.mpr fun index pair hpair => ?_⟩
    · obtain ⟨key, mapped, rfl, -⟩ := h pair hpair
      exact ⟨key, mapped, rfl⟩
    · obtain ⟨key, mapped, rfl, hfits⟩ := h pair (List.mem_of_getElem? hpair)
      exact forall_children_of_pair.mpr hfits
  · rintro ⟨hpairs, hchildren⟩ pair hpair
    obtain ⟨key, mapped, rfl⟩ := hpairs pair hpair
    obtain ⟨index, hindex⟩ := List.mem_iff_getElem?.mp hpair
    have hfits := forall_children_of_pair.mp (forall_children_pairs.mp hchildren index _ hindex)
    exact ⟨key, mapped, rfl, hfits⟩

/-! ## The cases of the check -/

section Cases

variable (hfound : registry.get? reference.handle = some definition)

include hfound

theorem conforms_record_iff {record : Record} {entries : Entries}
    (hbody : definition.body = .record record) :
    registry.conforms reference (.object entries) = true ↔
      entries.length = (registry.allFields reference.handle).length ∧
        ∀ field ∈ registry.allFields reference.handle, ∃ inner,
          Entries.value? entries field.name = some inner ∧
            registry.conforms field.type inner = true := by
  rw [conforms, hfound]
  simp only [hbody, Bool.and_eq_true, decide_eq_true_eq, List.all_eq_true]
  refine and_congr_right fun _ => forall₂_congr fun field _ => ?_
  split
  next inner hinner => simp [hinner]
  next hnone => simp [hnone]

theorem conforms_items_iff {builtin : Builtin} {items : List Json}
    (hbody : definition.body = .builtin builtin) (hlist : builtin = .list) :
    registry.conforms reference (.array items) = true ↔
      ∃ element, reference.typeArgument? 0 = some element ∧
        ∀ item ∈ items, registry.conforms element item = true := by
  subst hlist
  rw [conforms, hfound]
  simp only [hbody]
  cases reference.typeArgument? 0 with
  | none => simp
  | some element => simp

theorem conforms_array_iff {items : List Json} (hbody : definition.body = .builtin .array) :
    registry.conforms reference (.array items) = true ↔
      ∃ element, reference.typeArgument? 0 = some element ∧
        (reference.sizeArgument? 1).map UInt64.toNat = some items.length ∧
          ∀ item ∈ items, registry.conforms element item = true := by
  rw [conforms, hfound]
  simp only [hbody]
  cases reference.typeArgument? 0 with
  | none => simp
  | some element => simp

theorem conforms_own_iff (hbody : definition.body = .builtin .own) :
    registry.conforms reference value = true ↔
      value.isNull = true ∨ ∃ target, reference.typeArgument? 0 = some target ∧
        registry.conforms target value = true := by
  rw [conforms, hfound]
  simp only [hbody, Bool.or_eq_true]
  refine or_congr_right ?_
  split
  next target htarget => simp [htarget]
  next hnone => simp [hnone]

theorem conforms_variant_iff {index payload : Json}
    (hbody : definition.body = .builtin .variant) :
    registry.conforms reference (.array [index, payload]) = true ↔
      ∃ alternative, index.unsigned?.bind reference.typeArgument? = some alternative ∧
        registry.conforms alternative payload = true := by
  rw [conforms, hfound]
  simp only [hbody]
  cases index.unsigned?.bind reference.typeArgument? with
  | none => simp
  | some alternative => simp

theorem conforms_map_iff {pairs : List Json} (hbody : definition.body = .builtin .map) :
    registry.conforms reference (.array pairs) = true ↔
      ∀ pair ∈ pairs, ∃ key mapped keyType mappedType, pair = .array [key, mapped] ∧
        reference.typeArgument? 0 = some keyType ∧ reference.typeArgument? 1 = some mappedType ∧
          registry.conforms keyType key = true ∧ registry.conforms mappedType mapped = true := by
  rw [conforms, hfound]
  simp only [hbody, List.all_eq_true, List.mem_attach, forall_const, Subtype.forall]
  refine forall₂_congr fun pair hmem => ?_
  split
  next key mapped =>
      cases reference.typeArgument? 0 with
      | none => simp
      | some keyType =>
          cases reference.typeArgument? 1 with
          | none => simp
          | some mappedType => simp
  next hpair =>
      refine iff_of_false (by simp) ?_
      rintro ⟨key, mapped, -, -, rfl, -⟩
      exact hpair key mapped hmem (sizeOf_lt_of_item hmem) rfl HEq.rfl HEq.rfl

end Cases

/-! ## One level and the rest -/

/-- The outermost level fits, and everything directly inside conforms. -/
def FitsByLevels (registry : Registry) (reference : TypeReference) (value : Json) : Prop :=
  registry.OuterFits reference value ∧
    ∀ child ∈ registry.childValues reference value, registry.conforms child.type child.value = true

section Levels

variable (hfound : registry.get? reference.handle = some definition)

include hfound

theorem conforms_iff_of_record {record : Record} (hbody : definition.body = .record record) :
    registry.conforms reference value = true ↔ registry.FitsByLevels reference value := by
  unfold FitsByLevels
  cases value with
  | object entries =>
      have hchildren := forall_children_fields
        (registry.allFields reference.handle) entries (.object entries)
        (motive := fun type inner => registry.conforms type inner = true)
      rw [conforms_record_iff hfound hbody, OuterFits, childValues, parts, hfound]
      simp only [hbody]
      rw [and_assoc]
      refine and_congr_right fun _ => ?_
      constructor
      · intro h
        refine ⟨fun field hfield => ?_, hchildren.mpr fun field hfield inner hinner => ?_⟩
        · obtain ⟨inner, hinner, -⟩ := h field hfield
          exact ⟨inner, hinner⟩
        · obtain ⟨found, hfound, hconforms⟩ := h field hfield
          exact Option.some.inj (hfound.symm.trans hinner) ▸ hconforms
      · rintro ⟨hexists, hconforms⟩ field hfield
        obtain ⟨inner, hinner⟩ := hexists field hfield
        exact ⟨inner, hinner, hchildren.mp hconforms field hfield inner hinner⟩
  | _ =>
      rw [conforms, OuterFits, hfound]
      simp [hbody]

theorem conforms_iff_of_list (hbody : definition.body = .builtin .list) :
    registry.conforms reference value = true ↔ registry.FitsByLevels reference value := by
  unfold FitsByLevels
  cases value with
  | array items =>
      rw [conforms_items_iff hfound hbody rfl, OuterFits, childValues, parts, hfound]
      simp only [hbody]
      cases helement : reference.typeArgument? 0 with
      | none => simp
      | some element =>
          have hchildren := forall_children_items element items (.array items)
            (motive := fun type inner => registry.conforms type inner = true)
          simp only [Option.some.injEq, exists_eq_left', exists_eq', true_and]
          exact hchildren.symm
  | _ =>
      rw [conforms, OuterFits, childValues, parts, hfound]
      simp [hbody, Parts.children]

theorem conforms_iff_of_array (hbody : definition.body = .builtin .array) :
    registry.conforms reference value = true ↔ registry.FitsByLevels reference value := by
  unfold FitsByLevels
  cases value with
  | array items =>
      rw [conforms_array_iff hfound hbody, OuterFits, childValues, parts, hfound]
      simp only [hbody]
      cases helement : reference.typeArgument? 0 with
      | none => simp
      | some element =>
          have hchildren := forall_children_items element items (.array items)
            (motive := fun type inner => registry.conforms type inner = true)
          simp only [Option.some.injEq, exists_eq_left', exists_eq', true_and]
          exact and_congr_right fun _ => hchildren.symm
  | _ =>
      rw [conforms, OuterFits, childValues, parts, hfound]
      simp [hbody, Parts.children]

theorem conforms_iff_of_own (hbody : definition.body = .builtin .own) :
    registry.conforms reference value = true ↔ registry.FitsByLevels reference value := by
  unfold FitsByLevels
  rw [conforms_own_iff hfound hbody, OuterFits, childValues, parts, hfound]
  simp only [hbody]
  cases htarget : reference.typeArgument? 0 with
  | none => simp [Parts.children]
  | some target =>
      by_cases hnull : value.isNull = true
      · simp [hnull, Parts.children]
      · simp [hnull, Parts.children]

theorem conforms_iff_of_variant (hbody : definition.body = .builtin .variant) :
    registry.conforms reference value = true ↔ registry.FitsByLevels reference value := by
  unfold FitsByLevels
  cases value with
  | array items =>
      rcases items with _ | ⟨index, _ | ⟨payload, _ | ⟨surplus, rest⟩⟩⟩
      case cons.cons.nil =>
          rw [conforms_variant_iff hfound hbody, OuterFits, childValues, parts, hfound]
          simp only [hbody]
          cases index.unsigned?.bind reference.typeArgument? with
          | none => simp
          | some alternative => simp [Parts.children]
      all_goals
        rw [conforms, OuterFits, childValues, parts, hfound]
        simp [hbody, Parts.children]
  | _ =>
      rw [conforms, OuterFits, childValues, parts, hfound]
      simp [hbody, Parts.children]

theorem conforms_iff_of_map (hbody : definition.body = .builtin .map) :
    registry.conforms reference value = true ↔ registry.FitsByLevels reference value := by
  unfold FitsByLevels
  cases value with
  | array pairs =>
      rw [conforms_map_iff hfound hbody, OuterFits, childValues, parts, hfound]
      simp only [hbody]
      cases hkey : reference.typeArgument? 0 with
      | none => cases pairs <;> simp [Parts.children]
      | some keyType =>
          cases hmapped : reference.typeArgument? 1 with
          | none => cases pairs <;> simp [Parts.children]
          | some mappedType =>
              have hpairs := forall_pairs_iff keyType mappedType pairs (.array pairs)
                (motive := fun type inner => registry.conforms type inner = true)
              simpa using hpairs
  | _ =>
      rw [conforms, OuterFits, childValues, parts, hfound]
      simp [hbody, Parts.children]

end Levels

/-- A value conforms if its outermost level fits and everything directly inside it conforms. -/
theorem conforms_iff : registry.conforms reference value = true ↔
    registry.OuterFits reference value ∧
      ∀ child ∈ registry.childValues reference value,
        registry.conforms child.type child.value = true := by
  cases hfound : registry.get? reference.handle with
  | none =>
      rw [conforms, OuterFits, hfound]
      simp
  | some definition =>
      cases hbody : definition.body with
      | record record => exact conforms_iff_of_record hfound hbody
      | enumeration enumeration =>
          rw [conforms, OuterFits, childValues, parts, hfound]
          simp [hbody, Parts.children]
      | builtin builtin =>
          cases builtin with
          | list => exact conforms_iff_of_list hfound hbody
          | array => exact conforms_iff_of_array hfound hbody
          | own => exact conforms_iff_of_own hfound hbody
          | variant => exact conforms_iff_of_variant hfound hbody
          | map => exact conforms_iff_of_map hfound hbody
          | _ =>
              rw [conforms, OuterFits, childValues, parts, hfound]
              simp [hbody, Parts.children]

end Registry
end LiveSchema
