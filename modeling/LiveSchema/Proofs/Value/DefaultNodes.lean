import LiveSchema.Proofs.Value.DefaultSize
import LiveSchema.Proofs.Value.Fresh
import LiveSchema.Proofs.Value.Leaves
import Mathlib

/-!
# How many values a default holds

Every JSON value in a default counts for its size, except the number that tells which alternative a
variant holds.  The size is computed with sums and products that stop at the limit; stopping on the way
does no harm, since a part beyond the limit makes the whole go beyond it, and an array without elements
has the product zero either way.
-/

namespace LiveSchema

/-! ## Nodes -/

/-- How many JSON values a value consists of, itself included. -/
def Json.nodes (value : Json) : Nat :=
  1 + (value.inner.attach.map fun ⟨held, _⟩ => held.nodes).sum
termination_by sizeOf value
decreasing_by exact sizeOf_lt_of_mem_inner (by assumption)

theorem Json.nodes_eq (value : Json) : value.nodes = 1 + (value.inner.map nodes).sum := by
  rw [nodes]
  simp

theorem Json.nodes_of_inner {value : Json} (h : value.inner = []) : value.nodes = 1 := by
  rw [nodes_eq, h]
  rfl

/-! ## Sizes up to a limit -/

namespace Registry

theorem addSizes_min (m n : Nat) :
    addSizes (min m sizeLimit) (min n sizeLimit) = min (m + n) sizeLimit := by
  unfold addSizes
  omega

/-- Stopping at the limit before the product does no harm, even for a product with zero. -/
theorem mulSizes_min (m n : Nat) : mulSizes m (min n sizeLimit) = min (m * n) sizeLimit := by
  unfold mulSizes
  rcases Nat.le_total n sizeLimit with hsmall | hlarge
  · rw [Nat.min_eq_left hsmall]
  · rw [Nat.min_eq_right hlarge]
    rcases Nat.eq_zero_or_pos m with rfl | hpos
    · simp
    · have hlimit : sizeLimit ≤ m * sizeLimit := Nat.le_mul_of_pos_left sizeLimit hpos
      have hproduct : m * sizeLimit ≤ m * n := Nat.mul_le_mul_left m hlarge
      omega

/-! ## Variants in a value -/

variable {registry : Registry} {reference : TypeReference} {definition : TypeDefinition}
  {value : Json} {within : List TypeHandle}

/-- How many variants a value of a type consists of, itself included.  Each of them holds the number of
its alternative, which belongs to no type. -/
def variants (registry : Registry) (reference : TypeReference) (value : Json) : Nat :=
  (⟨reference, .root, value⟩ :: registry.visits reference value).countP fun visit =>
    registry.builtin? visit.type.handle = some .variant

theorem variants_eq (registry : Registry) (reference : TypeReference) (value : Json) :
    registry.variants reference value =
      (if registry.builtin? reference.handle = some .variant then 1 else 0) +
        ((registry.childValues reference value).map fun child =>
          registry.variants child.type child.value).sum := by
  simp only [variants, ← reached_eq_cons_visits]
  rw [reached_eq, openChildren_noBarrier, List.countP_cons, List.countP_flatMap, Nat.add_comm]
  simp only [decide_eq_true_eq, Function.comp_def, List.countP_map, Visit.type_under]
  rfl

theorem variants_of_childValues (hchildren : registry.childValues reference value = [])
    (hbuiltin : registry.builtin? reference.handle ≠ some .variant) :
    registry.variants reference value = 0 := by
  rw [variants_eq, hchildren, if_neg hbuiltin]
  rfl

/-! ## Counting and computing the size agree -/

/-- The size of a type is the number of values in a default of it, up to the limit. -/
def Measures (registry : Registry) (reference : TypeReference) (value : Json) (size : Nat) : Prop :=
  ∃ n, n + registry.variants reference value = value.nodes ∧ size = min n sizeLimit

theorem measures_of_scalar (hinner : value.inner = [])
    (hchildren : registry.childValues reference value = [])
    (hbuiltin : registry.builtin? reference.handle ≠ some .variant) :
    registry.Measures reference value 1 :=
  ⟨1, by rw [variants_of_childValues hchildren hbuiltin, Json.nodes_of_inner hinner], rfl⟩

/-- The size of an object adds up as its values do. -/
theorem measures_of_fields {fields : List Field} {valueOf : Field → Json}
    (h : ∀ field ∈ fields,
      registry.Measures field.type (valueOf field) (registry.sizeWithin within field.type))
    (total : Nat) :
    ∃ n, n + (fields.map fun field => registry.variants field.type (valueOf field)).sum =
        (fields.map fun field => (valueOf field).nodes).sum ∧
      registry.sizeOfFields within (min total sizeLimit) fields = min (total + n) sizeLimit := by
  induction fields generalizing total with
  | nil => exact ⟨0, rfl, sizeOfFields_nil _⟩
  | cons field rest ih =>
      obtain ⟨⟨n, hnodes, hsize⟩, hrest⟩ := List.forall_mem_cons.mp h
      obtain ⟨others, hothers, hsizes⟩ := ih hrest (total + n)
      refine ⟨n + others, ?_, ?_⟩
      · simp only [List.map_cons, List.sum_cons]
        omega
      · rw [sizeOfFields_cons, hsize, addSizes_min, hsizes, Nat.add_assoc]

/-- The values in an object whose entries follow the fields. -/
theorem childValues_entriesOf {record : Record}
    (hfound : registry.get? reference.handle = some definition)
    (hbody : definition.body = .record record)
    (hnames : (registry.allFieldNames reference.handle).Nodup) (valueOf : Field → Json) :
    registry.childValues reference
        (.object (Field.entriesOf (registry.allFields reference.handle) valueOf)) =
      (registry.allFields reference.handle).map fun field =>
        ⟨field.type, .field field.name, valueOf field⟩ := by
  simp only [childValues, parts, hfound, hbody, Parts.children]
  rw [← List.filterMap_eq_map]
  refine List.filterMap_congr fun field hfield => ?_
  rw [Field.value?_entriesOf hnames hfield]
  rfl

theorem builtin?_of_body {builtin : Builtin}
    (hfound : registry.get? reference.handle = some definition)
    (hbody : definition.body ≠ .builtin builtin) :
    registry.builtin? reference.handle ≠ some builtin := by
  intro hbuiltin
  obtain ⟨found, hfound', hbuiltin⟩ := builtin?_eq_some.mp hbuiltin
  obtain rfl := Option.some.inj (hfound.symm.trans hfound')
  exact hbody hbuiltin

theorem measures_record {record : Record}
    (hfound : registry.get? reference.handle = some definition)
    (hbody : definition.body = .record record)
    (hnames : (registry.allFieldNames reference.handle).Nodup)
    (hvalue : registry.defaultWithin? within reference = some value)
    (hfields : reference.handle ∉ within → ∀ field ∈ registry.allFields reference.handle, ∀ held,
      registry.defaultWithin? (reference.handle :: within) field.type = some held →
        registry.Measures field.type held
          (registry.sizeWithin (reference.handle :: within) field.type)) :
    registry.Measures reference value (registry.sizeWithin within reference) := by
  rw [defaultWithin?_record hfound hbody] at hvalue
  rw [sizeWithin_record hfound hbody]
  split at hvalue
  · exact absurd hvalue (by simp)
  next hfresh =>
      obtain ⟨entries, hentries, rfl⟩ := Option.map_eq_some_iff.mp hvalue
      obtain rfl := defaultEntries?_eq (show (Entries.keys [] ++
        (registry.allFields reference.handle).map Field.name).Nodup from hnames) hentries
      have hmeasures : ∀ field ∈ registry.allFields reference.handle,
          registry.Measures field.type
            ((registry.defaultWithin? (reference.handle :: within) field.type).getD .null)
            (registry.sizeWithin (reference.handle :: within) field.type) := by
        intro field hfield
        obtain ⟨held, hheld⟩ := forall_of_defaultEntries? hentries field hfield
        rw [hheld, Option.getD_some]
        exact hfields hfresh field hfield held hheld
      obtain ⟨n, hnodes, hsizes⟩ := measures_of_fields hmeasures 1
      rw [if_neg hfresh, List.nil_append]
      refine ⟨1 + n, ?_, hsizes⟩
      rw [variants_eq, childValues_entriesOf hfound hbody hnames,
        if_neg (builtin?_of_body hfound (by simp [hbody])), Json.nodes_eq, Json.inner,
        Field.entriesOf, List.map_map, List.map_map, List.map_map, Nat.zero_add, Nat.add_assoc]
      exact congrArg (1 + ·) hnodes

theorem measures_simpleDefault {builtin : Builtin}
    (hfound : registry.get? reference.handle = some definition)
    (hbody : definition.body = .builtin builtin) (harray : builtin ≠ .array)
    (hvariant : builtin ≠ .variant) :
    registry.Measures reference (simpleDefault builtin) (registry.sizeWithin within reference) := by
  have hchildren := childValues_simpleDefault hfound hbody harray hvariant
  have hnot : registry.builtin? reference.handle ≠ some .variant :=
    builtin?_of_body hfound (by simp [hbody, hvariant])
  refine ⟨(simpleDefault builtin).nodes, ?_, ?_⟩
  · rw [variants_of_childValues hchildren hnot, Nat.add_zero]
  · rw [sizeWithin_simple hfound hbody harray hvariant]
    cases builtin with
    | vector component size =>
        have hzero : (zeroOf component).nodes = 1 := by
          cases component <;> exact Json.nodes_of_inner rfl
        rw [simpleDefault, Json.nodes_eq, Json.inner, List.map_replicate, List.sum_replicate_nat, hzero]
        cases size <;> rfl
    | _ => rw [simpleDefault, Json.nodes_of_inner rfl]; rfl

theorem measures_array (hfound : registry.get? reference.handle = some definition)
    (hbody : definition.body = .builtin .array)
    (hvalue : registry.defaultWithin? within reference = some value)
    (helement : ∀ inner, reference.typeArgument? 0 = some inner → ∀ held,
      registry.defaultWithin? within inner = some held →
        registry.Measures inner held (registry.sizeWithin within inner)) :
    registry.Measures reference value (registry.sizeWithin within reference) := by
  rw [defaultWithin?_array hfound hbody, Option.map_eq_some_iff] at hvalue
  obtain ⟨held, hheld, rfl⟩ := hvalue
  rw [sizeWithin_array hfound hbody]
  have hnot : registry.builtin? reference.handle ≠ some .variant :=
    builtin?_of_body hfound (by simp [hbody])
  generalize ((reference.sizeArgument? 1).getD 0).toNat = count
  cases hinner : reference.typeArgument? 0 with
  | none =>
      -- the elements are null and belong to no type
      rw [hinner] at hheld
      obtain rfl := Option.some.inj hheld
      have hchildren : registry.childValues reference (.array (List.replicate count .null)) = [] := by
        simp [childValues, parts, hfound, hbody, hinner, Parts.children]
      refine ⟨count + 1, ?_, ?_⟩
      · rw [variants_of_childValues hchildren hnot, Json.nodes_eq, Json.inner, List.map_replicate,
          List.sum_replicate_nat, Json.nodes_of_inner rfl]
        omega
      · simp only [sizeOfArgument, addSizes, mulSizes]
        omega
  | some inner =>
      rw [hinner] at hheld
      obtain ⟨n, hnodes, hsize⟩ := helement inner hinner held hheld
      refine ⟨count * n + 1, ?_, ?_⟩
      · have hchildren : registry.childValues reference (.array (List.replicate count held)) =
            (List.replicate count held).zipIdx.map fun entry =>
              ⟨inner, .index entry.2, entry.1⟩ := by
          simp [childValues, parts, hfound, hbody, hinner, Parts.children]
        have hvariants : registry.variants reference (.array (List.replicate count held)) =
            count * registry.variants inner held := by
          rw [variants_eq, if_neg hnot, hchildren, List.map_map, Nat.zero_add]
          have heach : (List.replicate count held).zipIdx.map
              ((fun child : Child => registry.variants child.type child.value) ∘ fun entry =>
                ⟨inner, .index entry.2, entry.1⟩) =
                List.replicate count (registry.variants inner held) := by
            refine List.eq_replicate_iff.mpr ⟨by simp, fun m hm => ?_⟩
            obtain ⟨⟨item, index⟩, hitem, rfl⟩ := List.mem_map.mp hm
            obtain rfl := List.eq_of_mem_replicate (List.fst_mem_of_mem_zipIdx hitem)
            rfl
          rw [heach, List.sum_replicate_nat]
        rw [hvariants, Json.nodes_eq, Json.inner, List.map_replicate,
          List.sum_replicate_nat, ← hnodes, Nat.mul_add]
        omega
      · rw [sizeOfArgument, hsize, mulSizes_min]
        exact addSizes_min (count * n) 1

theorem measures_variant (hfound : registry.get? reference.handle = some definition)
    (hbody : definition.body = .builtin .variant) {first : TypeReference}
    (hfirst : reference.typeArgument? 0 = some first)
    (hvalue : registry.defaultWithin? within reference = some value)
    (hpayload : ∀ held, registry.defaultWithin? within first = some held →
      registry.Measures first held (registry.sizeWithin within first)) :
    registry.Measures reference value (registry.sizeWithin within reference) := by
  rw [defaultWithin?_variant hfound hbody, hfirst, Option.map_eq_some_iff] at hvalue
  obtain ⟨held, hheld, rfl⟩ := hvalue
  obtain ⟨n, hnodes, hsize⟩ := hpayload held hheld
  have hchildren : registry.childValues reference (.array [.ofNat 0, held]) =
      [⟨first, .payload, held⟩] := by
    simp [childValues, parts, hfound, hbody, hfirst, Parts.children,
      show (Json.ofNat 0).unsigned? = some 0 by decide]
  refine ⟨n + 1, ?_, ?_⟩
  · rw [variants_eq, hchildren, if_pos (builtin?_eq_some.mpr ⟨definition, hfound, hbody⟩),
      Json.nodes_eq]
    simp only [List.map_cons, List.map_nil, List.sum_cons, List.sum_nil, Json.inner,
      Json.nodes_of_inner (show (Json.ofNat 0).inner = [] from rfl)]
    omega
  · rw [sizeWithin_variant hfound hbody hfirst, hsize]
    exact addSizes_min n 1

end Registry
end LiveSchema
