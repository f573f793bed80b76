import LiveSchema.Proofs.Value.Depth
import LiveSchema.Proofs.Value.Walk

/-!
# Fitting values to changed types

A revising walk makes values that conformed before a change conform after it, if its step does so one
level at a time: what the step answers has the outermost level that the new types call for, and what
lies directly inside the answer conforms already or lay there before.  Values that were there before
are less deep or have a smaller type, so the walk is deep enough to meet all of them.  A walk whose steps
bring in little never uses up its levels, and comes to the end of the walk without a bound.
-/

namespace LiveSchema

/-- The child with the answer of a function in the place of its value. -/
def Child.answer (f : TypeReference → Json → Json) (child : Child) : Child :=
  ⟨child.type, child.segment, f child.type child.value⟩

namespace Registry

variable {registry : Registry} {reference : TypeReference} {value : Json}
  {f : TypeReference → Json → Json}

/-! ## Answers in the place of children -/

theorem children_mapFields {fields : List Field} {entries : Entries} {before after : Json}
    (hnodup : (fields.map Field.name).Nodup) :
    (Parts.fields fields (Parts.mapFields f entries fields)).children after =
      ((Parts.fields fields entries).children before).map (Child.answer f) := by
  simp only [Parts.children, List.map_filterMap]
  refine List.filterMap_congr fun field hfield => ?_
  rw [Parts.value?_mapFields hnodup hfield]
  cases Entries.value? entries field.name <;> rfl

theorem children_map_items {element : TypeReference} {items : List Json} {before after : Json} :
    (Parts.items element (items.map (f element))).children after =
      ((Parts.items element items).children before).map (Child.answer f) := by
  simp only [Parts.children, List.map_map, List.zipIdx_map]
  rfl

theorem children_mapPair {key mapped : TypeReference} {index : Nat} (pair : Json) :
    Parts.childrenOfPair key mapped index (Parts.mapPair f key mapped pair) =
      (Parts.childrenOfPair key mapped index pair).map (Child.answer f) := by
  cases pair with
  | array items => rcases items with _ | ⟨first, _ | ⟨second, surplus⟩⟩ <;> rfl
  | _ => rfl

theorem children_map_pairs {key mapped : TypeReference} {pairs : List Json}
    {before after : Json} :
    (Parts.pairs key mapped (pairs.map (Parts.mapPair f key mapped))).children after =
      ((Parts.pairs key mapped pairs).children before).map (Child.answer f) := by
  simp only [Parts.children, List.map_flatMap, List.zipIdx_map, List.flatMap_map]
  refine List.flatMap_congr fun entry _ => ?_
  exact children_mapPair entry.1

/-- Answers in the place of the children are the children then.  If the target of a pointer has become
null, there is nothing inside any more. -/
theorem childValues_mapChildren (hnames : (registry.allFieldNames reference.handle).Nodup) :
    registry.childValues reference ((registry.parts reference value).mapChildren f value) =
        (registry.childValues reference value).map (Child.answer f) ∨
      registry.childValues reference ((registry.parts reference value).mapChildren f value) = [] ∧
        ∃ child ∈ registry.childValues reference value, child.value.isNull = false ∧
          (f child.type child.value).isNull = true := by
  have hparts := registry.partsOf_parts reference value
  unfold childValues
  generalize hfrom : registry.parts reference value = parts at hparts ⊢
  cases hparts with
  | none => exact Or.inl (by simp [Parts.mapChildren, Parts.children, hfrom])
  | fields entries hfound hbody =>
      rw [Parts.mapChildren, (PartsOf.fields _ hfound hbody).parts_eq (by simp)]
      exact Or.inl (children_mapFields hnames)
  | items stored hfound hbody helement =>
      rw [Parts.mapChildren, (PartsOf.items _ hfound hbody helement).parts_eq (by simp)]
      exact Or.inl children_map_items
  | payload index held hfound hbody halternative =>
      rw [Parts.mapChildren, (PartsOf.payload _ _ hfound hbody halternative).parts_eq (by simp)]
      exact Or.inl rfl
  | @pointee _ target _ hfound hbody htarget hpresent =>
      rw [Parts.mapChildren]
      cases hafter : (f target value).isNull with
      | true =>
          refine Or.inr ⟨?_, ⟨target, .pointee, value⟩, List.mem_singleton_self _, hpresent, hafter⟩
          simp [parts, hfound, hbody, htarget, hafter, Parts.children]
      | false =>
          rw [(PartsOf.pointee _ hfound hbody htarget hafter).parts_eq (by simp)]
          exact Or.inl rfl
  | pairs stored hfound hbody hkey hmapped =>
      rw [Parts.mapChildren, (PartsOf.pairs _ hfound hbody hkey hmapped).parts_eq (by simp)]
      exact Or.inl children_map_pairs

theorem outerFits_mapFields {definition : TypeDefinition} {record : Record} {entries : Entries}
    (hfound : registry.get? reference.handle = some definition)
    (hbody : definition.body = .record record)
    (hnames : (registry.allFieldNames reference.handle).Nodup)
    (houter : registry.OuterFits reference (.object entries)) :
    registry.OuterFits reference
      (.object (Parts.mapFields f entries (registry.allFields reference.handle))) := by
  unfold OuterFits at *
  rw [hfound] at houter ⊢
  simp only [hbody] at houter ⊢
  obtain ⟨hlength, hexists⟩ := houter
  refine ⟨?_, fun field hfield => ?_⟩
  · have hkeys := congrArg List.length
      (Parts.keys_mapFields f entries (registry.allFields reference.handle))
    simp only [Entries.keys, List.length_map] at hkeys
    rw [hkeys, hlength]
  · obtain ⟨inner, hinner⟩ := hexists field hfield
    rw [Parts.value?_mapFields hnames hfield, hinner]
    exact ⟨_, rfl⟩

theorem outerFits_map_mapPair {definition : TypeDefinition} {pairs : List Json}
    (hfound : registry.get? reference.handle = some definition)
    (hbody : definition.body = .builtin .map)
    (houter : registry.OuterFits reference (.array pairs)) (keyType mappedType : TypeReference) :
    registry.OuterFits reference (.array (pairs.map (Parts.mapPair f keyType mappedType))) := by
  unfold OuterFits at *
  rw [hfound] at houter ⊢
  simp only [hbody] at houter ⊢
  intro pair hpair
  obtain ⟨old, hold, rfl⟩ := List.mem_map.mp hpair
  obtain ⟨⟨key, mapped, rfl⟩, htypes⟩ := houter old hold
  exact ⟨⟨_, _, rfl⟩, htypes⟩

/-- Answers in the place of the children leave the outermost level as it is. -/
theorem outerFits_mapChildren (hnames : (registry.allFieldNames reference.handle).Nodup)
    (houter : registry.OuterFits reference value) :
    registry.OuterFits reference ((registry.parts reference value).mapChildren f value) := by
  have hparts := registry.partsOf_parts reference value
  generalize registry.parts reference value = parts at hparts ⊢
  cases hparts with
  | none => exact houter
  | fields entries hfound hbody => exact outerFits_mapFields hfound hbody hnames houter
  | items stored hfound hbody helement =>
      -- a list of any length fits, and an array of the same length
      rcases hbody with hbody | hbody
      · simp [OuterFits, hfound, hbody, helement, Parts.mapChildren]
      · simpa [OuterFits, hfound, hbody, helement, Parts.mapChildren] using houter
  | payload index held hfound hbody halternative =>
      simp [OuterFits, hfound, hbody, halternative, Parts.mapChildren]
  | pointee value hfound hbody htarget hpresent => simp [OuterFits, hfound, hbody, htarget]
  | @pairs _ keyType mappedType _ hfound hbody hkey hmapped =>
      exact outerFits_map_mapPair hfound hbody houter keyType mappedType

/-- Where everything directly inside a value is answered by something that conforms, the value with the
answers in place conforms. -/
theorem conforms_mapChildren (hnames : ∀ handle, (registry.allFieldNames handle).Nodup)
    (houter : registry.OuterFits reference value)
    (hanswers : ∀ type inner, registry.Inside reference value type inner →
      registry.Inside reference ((registry.parts reference value).mapChildren f value) type
        (f type inner) → registry.conforms type (f type inner) = true) :
    registry.conforms reference ((registry.parts reference value).mapChildren f value) = true := by
  refine conforms_iff.mpr ⟨outerFits_mapChildren (hnames _) houter, fun child hchild => ?_⟩
  rcases childValues_mapChildren (f := f) (hnames reference.handle) with
    hchildren | ⟨hnone, -⟩
  · have hmem := hchild
    rw [hchildren] at hmem
    obtain ⟨old, hold, rfl⟩ := List.mem_map.mp hmem
    exact hanswers old.type old.value ⟨old, hold, rfl, rfl⟩ ⟨_, hchild, rfl, rfl⟩
  · rw [hnone] at hchild
    exact absurd hchild List.not_mem_nil

/-! ## Everywhere inside a value -/

/-- The second value, of the second type, is the first one or lies anywhere inside it. -/
inductive Within (registry : Registry) :
    TypeReference → Json → TypeReference → Json → Prop
  | self (reference : TypeReference) (value : Json) : Within registry reference value reference value
  | inside {reference type found : TypeReference} {value inner held : Json}
      (h : registry.Inside reference value type inner)
      (rest : Within registry type inner found held) : Within registry reference value found held

/-- A property of all values inside a value, itself included. -/
def Everywhere (registry : Registry) (property : TypeReference → Json → Prop)
    (reference : TypeReference) (value : Json) : Prop :=
  ∀ type inner, registry.Within reference value type inner → property type inner

theorem Everywhere.here {property : TypeReference → Json → Prop}
    (h : registry.Everywhere property reference value) : property reference value :=
  h reference value (.self reference value)

theorem Everywhere.inside {property : TypeReference → Json → Prop}
    (h : registry.Everywhere property reference value) {type : TypeReference} {inner : Json}
    (hinside : registry.Inside reference value type inner) :
    registry.Everywhere property type inner :=
  fun found held hwithin => h found held (.inside hinside hwithin)

/-- Everything inside a value that conforms conforms too. -/
theorem everywhere_of_conforms (h : registry.conforms reference value = true) :
    registry.Everywhere (fun type inner => registry.conforms type inner = true) reference value := by
  intro type inner hwithin
  induction hwithin with
  | self _ _ => exact h
  | inside hinside _ ih => exact ih (hinside.conforms h)

theorem visitsFrom_eq (registry : Registry) (path : ValuePath) (reference : TypeReference)
    (value : Json) :
    registry.visitsFrom path reference value =
      (registry.childValues reference value).flatMap fun child =>
        ⟨child.type, path.push child.segment, child.value⟩ ::
          registry.visitsFrom (path.push child.segment) child.type child.value := by
  rw [visitsFrom]
  simp

theorem mem_visitsFrom {visit : Visit} {path : ValuePath} :
    visit ∈ registry.visitsFrom path reference value ↔
      ∃ child ∈ registry.childValues reference value,
        visit = ⟨child.type, path.push child.segment, child.value⟩ ∨
          visit ∈ registry.visitsFrom (path.push child.segment) child.type child.value := by
  rw [visitsFrom_eq]
  simp only [List.mem_flatMap, List.mem_cons]

/-! ## The walk of a migration -/

/-- What a step has to do for values that conformed before a change to conform after it.  A value inside
an answer may be in doubt; then a property of what the walk makes of the outer value has to settle that
the inner one conforms. -/
structure Refits (before after : Registry) (f : TypeReference → Json → Json)
    (doubt : TypeReference → Json → TypeReference → Json → Prop)
    (property : TypeReference → Json → Prop) : Prop where
  names : ∀ handle, (after.allFieldNames handle).Nodup
  /-- What conforms already stays so. -/
  keeps : ∀ reference value, after.conforms reference value = true →
    after.conforms reference (f reference value) = true
  /-- The outermost level of an answer fits. -/
  outer : ∀ reference value, before.conforms reference value = true →
    after.OuterFits reference (f reference value)
  /-- What lies inside an answer conforms, or lay there before, or is in doubt. -/
  inside : ∀ reference value type inner, before.conforms reference value = true →
    after.Inside reference (f reference value) type inner →
      after.conforms type inner = true ∨ before.Inside reference value type inner ∨
        doubt reference (f reference value) type inner
  settle : ∀ reference value type inner (answer : TypeReference → Json → Json),
    doubt reference value type inner →
      property reference ((after.parts reference value).mapChildren answer value) →
        after.conforms type (answer type inner) = true

/-- How far a walk into a value can go, if no type on the way is deeper than `bound`. -/
def extent (bound : Nat) (reference : TypeReference) (value : Json) : Nat :=
  value.depth * (bound + 1) + reference.depth

theorem extent_pos (bound : Nat) (reference : TypeReference) (value : Json) :
    0 < extent bound reference value :=
  Nat.lt_of_lt_of_le reference.depth_pos (Nat.le_add_left _ _)

theorem extent_lt_of_smaller {bound : Nat} {type : TypeReference} {inner : Json}
    (h : inner.depth < value.depth ∨ inner = value ∧ type.depth < reference.depth)
    (hbound : type.depth ≤ bound) : extent bound type inner < extent bound reference value := by
  simp only [extent]
  rcases h with hless | ⟨rfl, hless⟩
  · have hproduct : (inner.depth + 1) * (bound + 1) ≤ value.depth * (bound + 1) :=
      Nat.mul_le_mul_right _ hless
    rw [Nat.add_mul, Nat.one_mul] at hproduct
    omega
  · omega

theorem Inside.extent_lt {bound : Nat} {type : TypeReference} {inner : Json}
    (h : registry.Inside reference value type inner) (hbound : type.depth ≤ bound) :
    extent bound type inner < extent bound reference value :=
  extent_lt_of_smaller h.depth.1 hbound

/-- The types inside are no deeper than the type of the value and those of fields. -/
theorem Inside.type_depth_le {bound : Nat} {type : TypeReference} {inner : Json}
    (h : registry.Inside reference value type inner) (hnesting : registry.nesting ≤ bound)
    (hreference : reference.depth ≤ bound) : type.depth ≤ bound := by
  rcases h.depth.2 with hless | hless <;> omega

/-- A walk goes as far as a walk into the value can go. -/
theorem exists_walkDepth_eq (registry : Registry) (reference : TypeReference) (value : Json)
    (room : Nat) :
    ∃ levels, registry.walkDepth reference value room = levels + 1 ∧
      extent (max reference.depth registry.nesting) reference value ≤ levels := by
  refine ⟨_, rfl, ?_⟩
  simp only [extent]
  refine Nat.add_le_add_right ?_ _
  exact Nat.mul_le_mul_right _ (Nat.le_add_right _ _)

/-! ## Walks that end -/

/-- The steps of a walk bring in little: what lies inside an answer is smaller than the value was, or it
is settled and of a limited depth; and inside of what is settled nothing is brought in. -/
structure Subsides (registry : Registry) (f : TypeReference → Json → Json) (room : Nat)
    (settled : TypeReference → Json → Prop) : Prop where
  step : ∀ reference value type inner, registry.Inside reference (f reference value) type inner →
    (inner.depth < value.depth ∨ inner = value ∧ type.depth < reference.depth) ∨
      settled type inner ∧ inner.depth ≤ room ∧ 0 < value.depth
  rest : ∀ reference value type inner, settled reference value →
    registry.Inside reference (f reference value) type inner →
      settled type inner ∧
        (inner.depth < value.depth ∨ inner = value ∧ type.depth < reference.depth)

section Subsides

variable {room bound : Nat} {settled : TypeReference → Json → Prop}

theorem Subsides.walks_of_settled (h : Subsides registry f room settled)
    (hnesting : registry.nesting ≤ bound) {levels : Nat} (hsettled : settled reference value)
    (hreference : reference.depth ≤ bound) (hextent : extent bound reference value ≤ levels) :
    registry.Walks f reference (f reference value)
      (registry.mapWithin f levels reference (f reference value)) := by
  induction levels generalizing reference value with
  | zero => exact absurd (extent_pos bound reference value) (Nat.not_lt.mpr hextent)
  | succ levels ih =>
      refine .through _ fun type inner hinside => ?_
      obtain ⟨hinner, hsmaller⟩ := h.rest reference value type inner hsettled hinside
      have hdepth := hinside.type_depth_le hnesting hreference
      have hless := extent_lt_of_smaller hsmaller hdepth
      exact ih hinner hdepth (by omega)

/-- A walk ends whose levels are enough for everything inside: for a value that is settled, or for one
that settled values may still be brought into. -/
theorem Subsides.walks_of_inside (h : Subsides registry f room settled)
    (hnesting : registry.nesting ≤ bound) {levels : Nat} (hreference : reference.depth ≤ bound)
    (hinside : ∀ type inner, registry.Inside reference value type inner →
      settled type inner ∧ extent bound type inner ≤ levels ∨
        extent bound type inner + room * (bound + 1) ≤ levels) :
    registry.Walks f reference value (registry.mapWithin f (levels + 1) reference value) := by
  induction levels generalizing reference value with
  | zero =>
      refine .through _ fun type inner hin => ?_
      have hpos := extent_pos bound type inner
      rcases hinside type inner hin with ⟨-, hextent⟩ | hextent <;> omega
  | succ levels ih =>
      refine .through _ fun type inner hin => ?_
      have hdepth := hin.type_depth_le hnesting hreference
      rcases hinside type inner hin with ⟨hsettled, hextent⟩ | hextent
      · exact h.walks_of_settled hnesting hsettled hdepth hextent
      · refine ih hdepth fun deeper held hheld => ?_
        have hdeeper := hheld.type_depth_le hnesting hdepth
        rcases h.step type inner deeper held hheld with hsmaller | ⟨hsettled, hroom, hpos⟩
        · have hless := extent_lt_of_smaller hsmaller hdeeper
          exact Or.inr (by omega)
        · -- what is brought in takes less than the level that the outer value is deeper by
          have hbrought := Nat.mul_le_mul_right (bound + 1) hroom
          have houter := Nat.mul_le_mul_right (bound + 1) (Nat.succ_le_of_lt hpos)
          simp only [extent] at hextent ⊢
          exact Or.inl ⟨hsettled, by omega⟩

/-- The bound on the levels of a walk is never reached. -/
theorem Subsides.walks (h : Subsides registry f room settled) (reference : TypeReference)
    (value : Json) :
    registry.Walks f reference value
      (registry.mapWithin f (registry.walkDepth reference value room) reference value) := by
  have hlevels : registry.walkDepth reference value room =
      extent (max reference.depth registry.nesting) reference value +
        room * (max reference.depth registry.nesting + 1) + 1 := by
    rw [walkDepth, extent, Nat.add_mul]
    omega
  rw [hlevels]
  have hnesting := Nat.le_max_right reference.depth registry.nesting
  have hreference := Nat.le_max_left reference.depth registry.nesting
  refine h.walks_of_inside hnesting hreference fun type inner hin => Or.inr ?_
  have hless := hin.extent_lt (hin.type_depth_le hnesting hreference)
  omega

end Subsides

section Refits

variable {before after : Registry}
  {doubt : TypeReference → Json → TypeReference → Json → Prop}
  {property : TypeReference → Json → Prop}

theorem Refits.keeps_mapWithin (hrefits : Refits before after f doubt property) (levels : Nat)
    {reference : TypeReference} {value : Json} (h : after.conforms reference value = true) :
    after.conforms reference (after.mapWithin f levels reference value) = true := by
  induction levels generalizing reference value with
  | zero => exact h
  | succ levels ih =>
      rw [mapWithin]
      refine conforms_mapChildren hrefits.names (conforms_iff.mp h).1 fun type inner hinside _ => ?_
      exact ih (hrefits.keeps type inner (hinside.conforms h))

/-- A walk of enough levels makes a value conform whose outermost level fits and whose inner values
conform now, or did before the change. -/
theorem Refits.conforms_mapWithin (hrefits : Refits before after f doubt property) (bound : Nat)
    (hnesting : after.nesting ≤ bound) (levels : Nat) {reference : TypeReference} {value : Json}
    (hreference : reference.depth ≤ bound) (houter : after.OuterFits reference value)
    (hinside : ∀ type inner, after.Inside reference value type inner →
      after.conforms type inner = true ∨
        before.conforms type inner = true ∧ extent bound type inner ≤ levels ∨
          doubt reference value type inner)
    (hproperty : after.Everywhere property reference
      (after.mapWithin f (levels + 1) reference value)) :
    after.conforms reference (after.mapWithin f (levels + 1) reference value) = true := by
  induction levels generalizing reference value with
  | zero =>
      rw [mapWithin] at hproperty ⊢
      refine conforms_mapChildren hrefits.names houter fun type inner hin hanswer => ?_
      rcases hinside type inner hin with hnow | ⟨-, hextent⟩ | hdoubt
      · exact hrefits.keeps_mapWithin 0 (hrefits.keeps type inner hnow)
      · exact absurd (extent_pos bound type inner) (Nat.not_lt.mpr hextent)
      · exact hrefits.settle reference value type inner _ hdoubt hproperty.here
  | succ levels ih =>
      rw [mapWithin] at hproperty ⊢
      refine conforms_mapChildren hrefits.names houter fun type inner hin hanswer => ?_
      rcases hinside type inner hin with hnow | ⟨hthen, hextent⟩ | hdoubt
      · exact hrefits.keeps_mapWithin (levels + 1) (hrefits.keeps type inner hnow)
      · have hdepth := hin.type_depth_le hnesting hreference
        refine ih hdepth (hrefits.outer type inner hthen) (fun deeper held hheld => ?_)
          (hproperty.inside hanswer)
        have hdeeper := hheld.type_depth_le hnesting hdepth
        rcases hrefits.inside type inner deeper held hthen hheld with h | hold | h
        · exact Or.inl h
        · have hless := hold.extent_lt hdeeper
          exact Or.inr (Or.inl ⟨hold.conforms hthen, by omega⟩)
        · exact Or.inr (Or.inr h)
      · exact hrefits.settle reference value type inner _ hdoubt hproperty.here

/-- A value that conformed before the change conforms after the step and the walk. -/
theorem Refits.conforms_revise (hrefits : Refits before after f doubt property)
    {reference : TypeReference} {value : Json} (room : Nat)
    (h : before.conforms reference value = true)
    (hproperty : after.Everywhere property reference
      (after.mapWithin f (after.walkDepth reference (f reference value) room) reference
        (f reference value))) :
    after.conforms reference (after.mapWithin f
      (after.walkDepth reference (f reference value) room) reference (f reference value)) = true := by
  obtain ⟨levels, hlevels, hextent⟩ :=
    after.exists_walkDepth_eq reference (f reference value) room
  rw [hlevels] at hproperty ⊢
  refine hrefits.conforms_mapWithin (max reference.depth after.nesting)
    (Nat.le_max_right _ _) levels (Nat.le_max_left _ _) (hrefits.outer reference value h)
    (fun type inner hin => ?_) hproperty
  have hdepth := hin.type_depth_le (Nat.le_max_right _ _) (Nat.le_max_left _ _)
  rcases hrefits.inside reference value type inner h hin with hnow | hold | hdoubt
  · exact Or.inl hnow
  · have hless := hin.extent_lt hdepth
    exact Or.inr (Or.inl ⟨hold.conforms h, by omega⟩)
  · exact Or.inr (Or.inr hdoubt)

end Refits

end Registry
end LiveSchema
