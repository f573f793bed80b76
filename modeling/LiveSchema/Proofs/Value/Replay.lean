import LiveSchema.Proofs.Value.Children
import LiveSchema.Proofs.Value.Met

/-!
# Walks that replay a list of changes

A migration walks through a value under the types as they are after a change of the schema, and goes on
inside its own answers.  What it has to do is told by the value and the types as they were before: the
places that matter are listed, and the value is changed there.  This module says when the two agree.  It
is enough to look at one level at a time: the answer of the step and the change of the outermost level
hold the same under every key, what lies inside the answer lay there before, and what is new there does
not matter.
-/

namespace LiveSchema

/-- The visits to values of types that matter. -/
def Visit.concerning (concerned : TypeReference → Bool) (visits : List Visit) : List Visit :=
  visits.filter fun visit => concerned visit.type

theorem Visit.concerning_cons (concerned : TypeReference → Bool) (visit : Visit)
    (visits : List Visit) :
    concerning concerned (visit :: visits) =
      if concerned visit.type then visit :: concerning concerned visits
      else concerning concerned visits :=
  List.filter_cons

theorem Visit.concerning_flatMap_under (concerned : TypeReference → Bool) {children : List Child}
    {visitsOf : Child → List Visit} :
    concerning concerned (children.flatMap fun child =>
        (visitsOf child).map (under ⟨[child.segment]⟩)) =
      children.flatMap fun child =>
        (concerning concerned (visitsOf child)).map (under ⟨[child.segment]⟩) := by
  rw [concerning, List.filter_flatMap]
  refine List.flatMap_congr fun child _ => ?_
  rw [List.filter_map]
  rfl

namespace Registry

variable {registry before after : Registry} {reference : TypeReference} {value : Json}
  {f : TypeReference → Json → Json} {concerned : TypeReference → Bool} {levels : Nat}

/-! ## Walks that meet nothing -/

/-- Items that contribute nothing can be left out. -/
theorem flatMap_filter_of_eq_nil {α : Type u} {β : Type v} {list : List α} {g : α → List β}
    {p : α → Bool} (h : ∀ a ∈ list, ¬ p a = true → g a = []) :
    (list.filter p).flatMap g = list.flatMap g := by
  induction list with
  | nil => rfl
  | cons a rest ih =>
      obtain ⟨hfirst, hothers⟩ := List.forall_mem_cons.mp h
      by_cases hp : p a = true
      · rw [List.filter_cons_of_pos hp, List.flatMap_cons, List.flatMap_cons, ih hothers]
      · rw [List.filter_cons_of_neg hp, List.flatMap_cons, hfirst hp, ih hothers, List.nil_append]

/-- Two selections give the same where they differ in items that contribute nothing. -/
theorem flatMap_filter_congr {α : Type u} {β : Type v} {list : List α} {g : α → List β}
    {p q : α → Bool} (h : ∀ a ∈ list, p a ≠ q a → g a = []) :
    (list.filter p).flatMap g = (list.filter q).flatMap g := by
  have hleft : ((list.filter p).filter q).flatMap g = (list.filter p).flatMap g := by
    refine flatMap_filter_of_eq_nil fun a ha hnot => ?_
    obtain ⟨hmem, hp⟩ := List.mem_filter.mp ha
    exact h a hmem fun hsame => hnot (hsame ▸ hp)
  have hright : ((list.filter q).filter p).flatMap g = (list.filter q).flatMap g := by
    refine flatMap_filter_of_eq_nil fun a ha hnot => ?_
    obtain ⟨hmem, hq⟩ := List.mem_filter.mp ha
    exact h a hmem fun hsame => hnot (hsame ▸ hq)
  rw [← hleft, ← hright, List.filter_filter, List.filter_filter]
  simp only [Bool.and_comm]

/-- Nothing that matters is reached where nothing matters. -/
theorem concerning_reached_eq_nil {closed : Barrier}
    (h : registry.Everywhere (fun type _ => concerned type = false) reference value) :
    Visit.concerning concerned (registry.reached closed reference value) = [] := by
  refine List.filter_eq_nil_iff.mpr fun visit hvisit => ?_
  rw [h _ _ (within_of_mem_reached hvisit)]
  exact Bool.false_ne_true

/-- Steps behind which nothing matters may be open or closed. -/
theorem concerning_reached_congr {closed other : Barrier}
    (h : ∀ reference value, ∀ child ∈ registry.childValues reference value,
      closed reference child.segment ≠ other reference child.segment →
        registry.Everywhere (fun type _ => concerned type = false) child.type child.value)
    (reference : TypeReference) (value : Json) :
    Visit.concerning concerned (registry.reached closed reference value) =
      Visit.concerning concerned (registry.reached other reference value) := by
  induction reference, value using registry.child_induction with
  | step reference value ih =>
      have hopen : ∀ child ∈ registry.openChildren closed reference value,
          (Visit.concerning concerned (registry.reached closed child.type child.value)).map
              (Visit.under ⟨[child.segment]⟩) =
            (Visit.concerning concerned (registry.reached other child.type child.value)).map
              (Visit.under ⟨[child.segment]⟩) := fun child hchild =>
        congrArg _ (ih child (mem_openChildren.mp hchild).1)
      have hinside : (registry.openChildren closed reference value).flatMap (fun child =>
            (Visit.concerning concerned (registry.reached other child.type child.value)).map
              (Visit.under ⟨[child.segment]⟩)) =
          (registry.openChildren other reference value).flatMap fun child =>
            (Visit.concerning concerned (registry.reached other child.type child.value)).map
              (Visit.under ⟨[child.segment]⟩) := by
        refine flatMap_filter_congr fun child hchild hdiffer => ?_
        have hfree := h reference value child hchild fun hsame => hdiffer (congrArg not hsame)
        rw [concerning_reached_eq_nil hfree, List.map_nil]
      rw [reached_eq, reached_eq, Visit.concerning_cons, Visit.concerning_cons,
        Visit.concerning_flatMap_under, Visit.concerning_flatMap_under, List.flatMap_congr hopen,
        hinside]

theorem whole_parts (registry : Registry) (reference : TypeReference) (value : Json) :
    (registry.parts reference value).whole value = value := by
  have hparts := registry.partsOf_parts reference value
  generalize registry.parts reference value = parts at hparts ⊢
  cases hparts <;> rfl

/-- Changing each child in its place puts the answers in the place of the children. -/
theorem changeEach_childValues {change : Child → Json → Json}
    (hfields : ∀ declared entries, registry.parts reference value ≠ .fields declared entries)
    (hanswer : ∀ child ∈ registry.childValues reference value,
      change child child.value = f child.type child.value) :
    Child.changeEach change (registry.childValues reference value) value =
      (registry.parts reference value).mapChildren f value := by
  have hall := Parts.changeEach_children hfields hanswer
  rwa [whole_parts] at hall

/-- A walk that changes nothing inside a value leaves the value as it is. -/
theorem mapWithin_eq_self (levels : Nat)
    (h : ∀ child ∈ registry.childValues reference value,
      registry.Everywhere (fun type inner => f type inner = inner) child.type child.value) :
    registry.mapWithin f levels reference value = value := by
  induction levels generalizing reference value with
  | zero => rfl
  | succ levels ih =>
      rw [mapWithin, Parts.mapChildren_eq_whole fun child hmem => ?_, whole_parts]
      have hchild := h child hmem
      rw [hchild.here]
      exact ih fun inner hinner => hchild.inside ⟨inner, hinner, rfl, rfl⟩

/-- A walk through a value in which no type matters leaves it as it is, and meets nothing that does. -/
theorem mapWithin_and_metWithin_of_unconcerned
    (hrest : ∀ type inner, concerned type = false → f type inner = inner) (levels : Nat)
    (h : registry.Everywhere (fun type _ => concerned type = false) reference value) :
    registry.mapWithin f levels reference value = value ∧
      Visit.concerning concerned (registry.metWithin f levels reference value) = [] := by
  constructor
  · refine mapWithin_eq_self levels fun child hmem type inner hwithin => hrest type inner ?_
    exact h.inside ⟨child, hmem, rfl, rfl⟩ type inner hwithin
  · induction levels generalizing reference value with
    | zero => rfl
    | succ levels ih =>
        rw [metWithin, Visit.concerning_flatMap_under, List.flatMap_eq_nil_iff]
        intro child hmem
        have hinside := h.inside ⟨child, hmem, rfl, rfl⟩
        rw [hrest _ _ hinside.here, Visit.concerning_cons, if_neg (by simp [hinside.here]),
          ih hinside, List.map_nil]

/-! ## Walks that are deep enough -/

section Walk

variable {inside : TypeReference → Json → List Child} {motive : Nat → TypeReference → Json → Prop}
  (hinside : ∀ reference value, before.conforms reference value = true →
    ∀ child ∈ inside reference value, before.Inside reference value child.type child.value ∧
      after.Inside reference (f reference value) child.type child.value)
  (hstep : ∀ levels reference value, before.conforms reference value = true →
    (∀ child ∈ inside reference value, motive levels child.type child.value) →
      motive (levels + 1) reference value)

include hinside hstep

/-- What lies inside a value has a smaller extent, so a walk of enough levels never runs out of
them. -/
theorem walk_induction_of_extent (bound : Nat) (hnesting : after.nesting ≤ bound) (levels : Nat)
    {reference : TypeReference} {value : Json} (hconforms : before.conforms reference value = true)
    (hreference : reference.depth ≤ bound)
    (hextent : ∀ child ∈ inside reference value, extent bound child.type child.value ≤ levels) :
    motive (levels + 1) reference value := by
  induction levels generalizing reference value with
  | zero =>
      refine hstep 0 reference value hconforms fun child hchild => ?_
      exact absurd (extent_pos bound child.type child.value) (Nat.not_lt.mpr (hextent child hchild))
  | succ levels ih =>
      -- the types inside are no deeper than those of the answer of the step
      have hdepth : ∀ {reference : TypeReference} {value : Json}, reference.depth ≤ bound →
          before.conforms reference value = true → ∀ child ∈ inside reference value,
            child.type.depth ≤ bound := by
        intro reference value hreference hconforms child hchild
        exact (hinside reference value hconforms child hchild).2.type_depth_le hnesting hreference
      refine hstep (levels + 1) reference value hconforms fun child hchild => ?_
      have hchildDepth := hdepth hreference hconforms child hchild
      have hchildConforms := (hinside reference value hconforms child hchild).1.conforms hconforms
      refine ih hchildConforms hchildDepth fun deeper hdeeper => ?_
      have hdeeperDepth := hdepth hchildDepth hchildConforms deeper hdeeper
      have hless := (hinside _ _ hchildConforms deeper hdeeper).1.extent_lt hdeeperDepth
      have hbound := hextent child hchild
      omega

/-- What holds of a value if it holds, one level further down, of everything that the step leaves inside
it, holds for the walk of a migration. -/
theorem walk_induction (room : Nat) (hconforms : before.conforms reference value = true) :
    motive (after.walkDepth reference (f reference value) room) reference value := by
  obtain ⟨levels, hlevels, hextent⟩ :=
    after.exists_walkDepth_eq reference (f reference value) room
  rw [hlevels]
  refine walk_induction_of_extent hinside hstep (max reference.depth after.nesting)
    (Nat.le_max_right _ _) levels hconforms (Nat.le_max_left _ _) fun child hchild => ?_
  have hmet := (hinside reference value hconforms child hchild).2
  have hdepth := hmet.type_depth_le (Nat.le_max_right _ _) (Nat.le_max_left _ _)
  exact Nat.le_trans (Nat.le_of_lt (hmet.extent_lt hdepth)) hextent

end Walk

/-! ## Objects -/

/-- The fields of an object lie behind distinct steps. -/
theorem nodup_segments_of_record {entries : Entries}
    (hkind : registry.kind? reference.handle = some .record)
    (hnames : (registry.allFieldNames reference.handle).Nodup) :
    ((registry.childValues reference (.object entries)).map Child.segment).Nodup := by
  have hsublist : ((registry.childValues reference (.object entries)).map Child.segment).Sublist
      ((registry.allFields reference.handle).map fun field => PathSegment.field field.name) := by
    rw [childValues, parts_of_record hkind]
    simp only [Parts.children]
    induction registry.allFields reference.handle with
    | nil => exact List.Sublist.refl _
    | cons field rest ih =>
        rw [List.filterMap_cons, List.map_cons]
        cases Entries.value? entries field.name with
        | none => exact ih.cons _
        | some value => exact ih.cons_cons _
  refine hsublist.nodup ?_
  rw [show (fun field : Field => PathSegment.field field.name) = PathSegment.field ∘ Field.name
    from rfl, ← List.map_map]
  exact hnames.map fun _ _ => PathSegment.field.inj

/-! ## Replaying -/

/-- The answer of the step and the change of an object hold the same under every key. -/
structure ReplaysObject (strict : Prop) (before after : Registry) (reference : TypeReference)
    (answer change : Json) : Prop where
  kindBefore : before.kind? reference.handle = some .record
  kindAfter : after.kind? reference.handle = some .record
  entries : ∃ answered changed, answer = .object answered ∧ change = .object changed ∧
    (Entries.keys answered).Nodup ∧
    SameItems strict (Entries.keys answered) (Entries.keys changed) ∧
    ∀ key, Entries.value? answered key = Entries.value? changed key

/-- What a step and changes in place have in common: on every value that conforms before the change,
the two agree on the outermost level, and the step leaves everything that matters inside the value
where it is, except behind closed steps. -/
structure Replays (strict : Prop) (before after : Registry) (closed : Barrier)
    (concerned : TypeReference → Bool) (f : TypeReference → Json → Json)
    (change : TypeReference → Json → Json → Json) : Prop where
  namesBefore : ∀ handle, (before.allFieldNames handle).Nodup
  namesAfter : ∀ handle, (after.allFieldNames handle).Nodup
  /-- The step leaves alone what does not matter. -/
  rest : ∀ type inner, concerned type = false → f type inner = inner
  /-- The children behind open steps are those of before. -/
  children : ∀ reference value, before.conforms reference value = true →
    SameItems strict (after.openChildren closed reference (f reference value))
      (before.openChildren closed reference value)
  /-- Nothing behind a closed step matters. -/
  closedChildren : ∀ reference value, before.conforms reference value = true →
    ∀ child ∈ after.childValues reference (f reference value),
      closed reference child.segment = true →
        after.Everywhere (fun type _ => concerned type = false) child.type child.value
  /-- Values that are no objects of records stay as they are, and all steps into them are open. -/
  outer : ∀ reference value, before.conforms reference value = true →
    ReplaysObject strict before after reference (f reference value)
        (change reference value value) ∨
      f reference value = value ∧ change reference value value = value ∧
        after.parts reference value = before.parts reference value ∧
        (∀ declared entries, before.parts reference value ≠ .fields declared entries) ∧
        ∀ segment, closed reference segment = false

/-- A walk of some levels makes of a value what the changes make of it, and meets what they list. -/
structure Tracks (strict : Prop) (before after : Registry) (closed : Barrier)
    (concerned : TypeReference → Bool) (f : TypeReference → Json → Json)
    (change : TypeReference → Json → Json → Json) (levels : Nat) (reference : TypeReference)
    (value : Json) : Prop where
  like : Json.Like strict (after.mapWithin f levels reference (f reference value))
    (before.replay closed change reference value value)
  met : SameItems strict
    (Visit.concerning concerned (⟨reference, .root, value⟩ ::
      after.metWithin f levels reference (f reference value)))
    (Visit.concerning concerned (before.reached closed reference value))

section Replays

variable {strict : Prop} {closed : Barrier} {change : TypeReference → Json → Json → Json}

/-- Where the walk through every child replays the changes in it, so does the walk through the whole
object. -/
theorem Replays.like_object (h : Replays strict before after closed concerned f change)
    (hconforms : before.conforms reference value = true)
    (hobject : ReplaysObject strict before after reference (f reference value)
      (change reference value value))
    (hchildren : ∀ child ∈ before.openChildren closed reference value,
      Json.Like strict (after.mapWithin f levels child.type (f child.type child.value))
        (before.replay closed change child.type child.value child.value)) :
    Json.Like strict (after.mapWithin f (levels + 1) reference (f reference value))
      (before.replay closed change reference value value) := by
  obtain ⟨hkindBefore, hkindAfter, answered, changed, hanswer, hchange, hnodup, hkeys, hsame⟩ :=
    hobject
  obtain ⟨entries, rfl⟩ :=
    exists_object_of_outerFits hkindBefore (conforms_iff.mp hconforms).1
  have hopen := h.children reference (.object entries) hconforms
  have hclosed := h.closedChildren reference (.object entries) hconforms
  rw [hanswer] at hopen hclosed
  have hsegments : ∀ child ∈ before.openChildren closed reference (.object entries),
      ∃ name, child.segment = .field name := by
    intro child hchild
    obtain ⟨field, -, inner, -, rfl⟩ :=
      (mem_childValues_of_record hkindBefore).mp (mem_openChildren.mp hchild).1
    exact ⟨field.name, rfl⟩
  have hdistinct : ((before.openChildren closed reference (.object entries)).map
      Child.segment).Nodup :=
    (nodup_segments_of_record hkindBefore (h.namesBefore _)).sublist (List.filter_sublist.map _)
  obtain ⟨result, hresult, hresultKeys, hinside, houtside⟩ := Parts.changeEach_object
    (fun child => before.replay closed change child.type child.value) changed hsegments hdistinct
  rw [replay_eq, hchange, hresult, hanswer, mapWithin, parts_of_record hkindAfter]
  refine .object ?_ ?_ fun key a b ha hb => ?_
  · rwa [Parts.keys_mapFields]
  · rwa [Parts.keys_mapFields, hresultKeys]
  · by_cases hname : key ∈ after.allFieldNames reference.handle
    · obtain ⟨field, hfield, rfl⟩ := List.mem_map.mp hname
      rw [Parts.value?_mapFields (h.namesAfter _) hfield, Option.map_eq_some_iff] at ha
      obtain ⟨inner, hinner, rfl⟩ := ha
      have hmem : (⟨field.type, .field field.name, inner⟩ : Child) ∈
          after.childValues reference (.object answered) :=
        (mem_childValues_of_record hkindAfter).mpr ⟨field, hfield, inner, hinner, rfl⟩
      cases hstep : closed reference (.field field.name) with
      | true =>
          -- what is new does not matter, so both sides leave it as it is
          have hnew := hclosed _ hmem hstep
          have hb' := houtside field.name fun hopened => by
            obtain ⟨child, hchild, hsegment⟩ := List.mem_map.mp hopened
            have hfree := (mem_openChildren.mp hchild).2
            rw [hsegment, hstep] at hfree
            exact absurd hfree (by simp)
          rw [hb, ← hsame, hinner, Option.some.injEq] at hb'
          rw [h.rest _ _ hnew.here, hb',
            (mapWithin_and_metWithin_of_unconcerned h.rest levels hnew).1]
          exact .refl inner
      | false =>
          have hkept := hopen.mem_iff.mp (mem_openChildren.mpr ⟨hmem, hstep⟩)
          rw [hinside _ hkept field.name rfl, ← hsame, hinner, Option.map_some,
            Option.some.injEq] at hb
          exact hb ▸ hchildren _ hkept
    · have hb' := houtside key fun hopened => by
        obtain ⟨child, hchild, hsegment⟩ := List.mem_map.mp hopened
        obtain ⟨field, hfield, inner, -, rfl⟩ := (mem_childValues_of_record hkindAfter).mp
          (mem_openChildren.mp (hopen.mem_iff.mpr hchild)).1
        exact hname (PathSegment.field.inj hsegment ▸ List.mem_map_of_mem hfield)
      rw [Parts.value?_mapFields_of_not_mem hname, hsame, ← hb', hb, Option.some.injEq] at ha
      exact ha ▸ .refl b

theorem Replays.like_step (h : Replays strict before after closed concerned f change)
    (hconforms : before.conforms reference value = true)
    (hchildren : ∀ child ∈ before.openChildren closed reference value,
      Json.Like strict (after.mapWithin f levels child.type (f child.type child.value))
        (before.replay closed change child.type child.value child.value)) :
    Json.Like strict (after.mapWithin f (levels + 1) reference (f reference value))
      (before.replay closed change reference value value) := by
  rcases h.outer reference value hconforms with
    hobject | ⟨hanswer, hchange, hparts, hfields, hopen⟩
  · exact h.like_object hconforms hobject hchildren
  · have hall : before.openChildren closed reference value = before.childValues reference value :=
      List.filter_eq_self.mpr fun child _ => by simp [hopen]
    have hlike : Json.Like strict
        ((before.parts reference value).mapChildren
          (fun type inner => after.mapWithin f levels type (f type inner)) value)
        ((before.parts reference value).mapChildren
          (fun type inner => before.replay closed change type inner inner) value) :=
      Parts.like_mapChildren hfields fun child hchild => hchildren child (hall ▸ hchild)
    have heach : Child.changeEach
          (fun child => before.replay closed change child.type child.value)
          (before.childValues reference value) value =
        (before.parts reference value).mapChildren
          (fun type inner => before.replay closed change type inner inner) value :=
      changeEach_childValues hfields fun _ _ => rfl
    rw [replay_eq, hchange, hall, heach, hanswer, mapWithin, hparts]
    exact hlike

theorem Replays.met_step (h : Replays strict before after closed concerned f change)
    (hconforms : before.conforms reference value = true)
    (hchildren : ∀ child ∈ before.openChildren closed reference value,
      SameItems strict
        (Visit.concerning concerned (⟨child.type, .root, child.value⟩ ::
          after.metWithin f levels child.type (f child.type child.value)))
        (Visit.concerning concerned (before.reached closed child.type child.value))) :
    SameItems strict
      (Visit.concerning concerned (⟨reference, .root, value⟩ ::
        after.metWithin f (levels + 1) reference (f reference value)))
      (Visit.concerning concerned (before.reached closed reference value)) := by
  have hinside : SameItems strict
      (Visit.concerning concerned (after.metWithin f (levels + 1) reference (f reference value)))
      (Visit.concerning concerned ((before.openChildren closed reference value).flatMap fun child =>
        (before.reached closed child.type child.value).map (Visit.under ⟨[child.segment]⟩))) := by
    rw [metWithin, Visit.concerning_flatMap_under, Visit.concerning_flatMap_under]
    have hopen := (h.children reference value hconforms).flatMap fun child hchild =>
      (hchildren child hchild).map (Visit.under ⟨[child.segment]⟩)
    refine Eq.subst (motive := fun visits => SameItems strict visits _) ?_ hopen
    -- the children behind closed steps contribute nothing
    refine flatMap_filter_of_eq_nil fun child hchild hnot => ?_
    have hnew := h.closedChildren reference value hconforms child hchild (by simpa using hnot)
    rw [h.rest _ _ hnew.here, Visit.concerning_cons, if_neg (by simp [hnew.here]),
      (mapWithin_and_metWithin_of_unconcerned h.rest levels hnew).2, List.map_nil]
  rw [reached_eq, Visit.concerning_cons, Visit.concerning_cons]
  split
  · exact hinside.cons _
  · exact hinside

/-- Where the walk through every child tracks the changes, so does the walk through the whole value. -/
theorem Replays.step (h : Replays strict before after closed concerned f change)
    (hconforms : before.conforms reference value = true)
    (hchildren : ∀ child ∈ before.openChildren closed reference value,
      Tracks strict before after closed concerned f change levels child.type child.value) :
    Tracks strict before after closed concerned f change (levels + 1) reference value :=
  ⟨h.like_step hconforms fun child hchild => (hchildren child hchild).like,
    h.met_step hconforms fun child hchild => (hchildren child hchild).met⟩

/-- The walk of a migration tracks the changes. -/
theorem Replays.walkDepth (h : Replays strict before after closed concerned f change) (room : Nat)
    (hconforms : before.conforms reference value = true) :
    Tracks strict before after closed concerned f change
      (after.walkDepth reference (f reference value) room) reference value := by
  have hinside : ∀ reference value, before.conforms reference value = true →
      ∀ child ∈ before.openChildren closed reference value,
        before.Inside reference value child.type child.value ∧
          after.Inside reference (f reference value) child.type child.value := by
    intro reference value hconforms child hchild
    have hmet := (h.children reference value hconforms).mem_iff.mpr hchild
    exact ⟨⟨child, (mem_openChildren.mp hchild).1, rfl, rfl⟩,
      ⟨child, (mem_openChildren.mp hmet).1, rfl, rfl⟩⟩
  exact walk_induction (motive := Tracks strict before after closed concerned f change) hinside
    (fun _ _ _ hconforms => h.step hconforms) room hconforms

end Replays
end Registry
end LiveSchema
