import LiveSchema.Proofs.Value.AtPath
import LiveSchema.Proofs.Value.Refit

/-!
# The values that a walk reaches

`Registry.reached` lists a value and everything inside it in pre-order, but does not pass steps that are
closed.  Each path in the list leads to the value beside it.  Changes along the whole list, one after the
other, can be made child by child.
-/

namespace LiveSchema

/-- Which steps from values of a type are closed. -/
abbrev Barrier :=
  TypeReference → PathSegment → Bool

namespace Visit

/-- The visit, seen from further out: `path` leads to where the path of the visit starts. -/
def under (path : ValuePath) (visit : Visit) : Visit :=
  { visit with path := ⟨path.segments ++ visit.path.segments⟩ }

@[simp] theorem type_under (path : ValuePath) (visit : Visit) :
    (visit.under path).type = visit.type := rfl

@[simp] theorem value_under (path : ValuePath) (visit : Visit) :
    (visit.under path).value = visit.value := rfl

theorem under_root (visit : Visit) : visit.under .root = visit := rfl

theorem under_here (path : ValuePath) (type : TypeReference) (value : Json) :
    Visit.under path ⟨type, .root, value⟩ = ⟨type, path, value⟩ := by
  simp [under, ValuePath.root]

theorem under_push (path : ValuePath) (segment : PathSegment) (visit : Visit) :
    visit.under (path.push segment) = (visit.under ⟨[segment]⟩).under path := by
  simp [under, ValuePath.push]

end Visit

/-- Changes a value at each of its children, one after the other. -/
def Child.changeEach (change : Child → Json → Json) (children : List Child) (value : Json) : Json :=
  children.foldl (fun value child => child.segment.modify (change child) value) value

namespace Registry

variable {registry : Registry} {closed : Barrier} {reference : TypeReference} {value : Json}

/-- What holds of a value as soon as it holds of everything directly inside it holds of all values. -/
theorem child_induction (registry : Registry) {motive : TypeReference → Json → Prop}
    (step : ∀ reference value, (∀ child ∈ registry.childValues reference value,
      motive child.type child.value) → motive reference value)
    (reference : TypeReference) (value : Json) : motive reference value :=
  step reference value fun child _ => child_induction registry step child.type child.value
termination_by (sizeOf value, sizeOf reference)
decreasing_by exact child_smaller ‹_›

/-- The values directly inside a value, except behind closed steps. -/
def openChildren (registry : Registry) (closed : Barrier) (reference : TypeReference)
    (value : Json) : List Child :=
  (registry.childValues reference value).filter fun child => !closed reference child.segment

theorem mem_openChildren {child : Child} :
    child ∈ registry.openChildren closed reference value ↔
      child ∈ registry.childValues reference value ∧ closed reference child.segment = false := by
  simp [openChildren]

/-- A value of a type and everything inside it that lies behind no closed step, in pre-order. -/
def reached (registry : Registry) (closed : Barrier) (reference : TypeReference) (value : Json) :
    List Visit :=
  ⟨reference, .root, value⟩ ::
    (registry.openChildren closed reference value).attach.flatMap fun ⟨child, _⟩ =>
      (registry.reached closed child.type child.value).map (Visit.under ⟨[child.segment]⟩)
termination_by (sizeOf value, sizeOf reference)
decreasing_by exact child_smaller (mem_openChildren.mp ‹_›).1

theorem reached_eq (registry : Registry) (closed : Barrier) (reference : TypeReference)
    (value : Json) :
    registry.reached closed reference value = ⟨reference, .root, value⟩ ::
      (registry.openChildren closed reference value).flatMap fun child =>
        (registry.reached closed child.type child.value).map (Visit.under ⟨[child.segment]⟩) := by
  rw [reached]
  simp

theorem mem_reached {visit : Visit} :
    visit ∈ registry.reached closed reference value ↔ visit = ⟨reference, .root, value⟩ ∨
      ∃ child ∈ registry.openChildren closed reference value,
        ∃ inner ∈ registry.reached closed child.type child.value,
          visit = inner.under ⟨[child.segment]⟩ := by
  rw [reached_eq, List.mem_cons, List.mem_flatMap]
  simp only [List.mem_map, eq_comm]

/-! ## Paths lead to what is reached -/

/-- The step to a child leads to its value. -/
theorem child?_of_mem_childValues {child : Child}
    (h : child ∈ registry.childValues reference value) :
    PathSegment.child? value child.segment = some child.value := by
  cases hasChild_of_mem_childValues h with
  | field hfield hheld => exact hheld
  | item hargument hitem => simpa [PathSegment.child?, Json.array?] using hitem
  | payload hargument => rfl
  | pointee hargument hpresent => simp [PathSegment.child?, hpresent]
  | mapKey hargument hpair | mapValue hargument hpair =>
      simp [PathSegment.child?, Json.array?, hpair]

/-- Every path in the list leads to the value beside it. -/
theorem resolve?_of_mem_reached {visit : Visit}
    (h : visit ∈ registry.reached closed reference value) :
    visit.path.resolve? value = some visit.value := by
  induction reference, value using registry.child_induction generalizing visit with
  | step reference value ih =>
      rcases mem_reached.mp h with rfl | ⟨child, hchild, inner, hinner, rfl⟩
      · rfl
      · have hinside := (mem_openChildren.mp hchild).1
        rw [ValuePath.resolve?, Visit.under, List.singleton_append, List.foldlM_cons,
          child?_of_mem_childValues hinside]
        exact ih child hinside hinner

/-- What is reached lies inside the value. -/
theorem within_of_mem_reached {visit : Visit}
    (h : visit ∈ registry.reached closed reference value) :
    registry.Within reference value visit.type visit.value := by
  induction reference, value using registry.child_induction generalizing visit with
  | step reference value ih =>
      rcases mem_reached.mp h with rfl | ⟨child, hchild, inner, hinner, rfl⟩
      · exact .self reference value
      · have hinside := (mem_openChildren.mp hchild).1
        have hrest : registry.Within child.type child.value inner.type inner.value :=
          ih child hinside hinner
        exact .inside ⟨child, hinside, rfl, rfl⟩ hrest

/-! ## Changes along the list -/

/-- Changes a value where the visits of another one lead, one after the other. -/
def replay (registry : Registry) (closed : Barrier)
    (change : TypeReference → Json → Json → Json) (reference : TypeReference) (value : Json)
    (changed : Json) : Json :=
  (registry.reached closed reference value).foldl
    (fun changed visit => visit.path.modify (change visit.type visit.value) changed) changed

/-- The changes are made on the value itself first, and then child by child. -/
theorem replay_eq (change : TypeReference → Json → Json → Json) (changed : Json) :
    registry.replay closed change reference value changed =
      Child.changeEach (fun child => registry.replay closed change child.type child.value)
        (registry.openChildren closed reference value) (change reference value changed) := by
  rw [replay, reached_eq, List.foldl_cons, List.foldl_flatMap]
  refine List.foldl_ext _ _ _ fun changed child _ => ?_
  rw [List.foldl_map]
  exact child.segment.foldl_modify (fun inner (visit : Visit) =>
    visit.path.modify (change visit.type visit.value) inner) _ changed

/-- Where only some visits change anything, the others can be left out. -/
theorem replay_eq_filter (concerned : TypeReference → Bool)
    (change : TypeReference → Json → Json → Json)
    (hother : ∀ type inner, concerned type = false → change type inner = id) (changed : Json) :
    registry.replay closed change reference value changed =
      ((registry.reached closed reference value).filter fun visit => concerned visit.type).foldl
        (fun changed visit => visit.path.modify (change visit.type visit.value) changed)
        changed := by
  rw [replay, List.foldl_filter]
  refine List.foldl_ext _ _ _ fun changed visit _ => ?_
  cases hconcerned : concerned visit.type with
  | true => rfl
  | false =>
      rw [hother _ _ hconcerned, ValuePath.modify_id]
      rfl


end Registry
end LiveSchema
