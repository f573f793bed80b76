import LiveSchema.Proofs.Value.Reached

/-!
# What a revising walk meets

A walk whose step answers the same in every state meets values in an order that does not depend on the
state either.  `Registry.metWithin` lists them, each as it was when the walk came to it, so the state
that a walk ends in is the fold of its step along this list.
-/

namespace LiveSchema

universe u

variable {σ : Type u}

namespace Parts

variable {step : ChildStep σ} {f : TypeReference → Json → Json}

/-- The state after a child, for a step whose answer counts only for its state. -/
def seen (step : ChildStep σ) (state : σ) (child : Child) : σ :=
  (step state child.type child.segment child.value).state

theorem reviseItems_state (hplain : ChildStep.Plain step f) (element : TypeReference) (state : σ)
    (index : Nat) (done items : List Json) :
    (reviseItems step element state index done items).state =
      ((items.zipIdx index).map fun (item, index) =>
        (⟨element, .index index, item⟩ : Child)).foldl (seen step) state := by
  induction items generalizing state index done with
  | nil => rfl
  | cons item rest ih =>
      obtain ⟨hvalue, hstopped⟩ := hplain state element (.index index) item
      simp only [reviseItems, hstopped, Bool.false_eq_true, if_false]
      rw [ih]
      rfl

theorem revisePair_state (hplain : ChildStep.Plain step f) (key mapped : TypeReference) (state : σ)
    (index : Nat) (pair : Json) :
    (revisePair step key mapped state index pair).state =
      (childrenOfPair key mapped index pair).foldl (seen step) state := by
  cases pair with
  | array items =>
      rcases items with _ | ⟨first, _ | ⟨second, surplus⟩⟩
      · rfl
      · simp [revisePair, childrenOfPair, seen, (hplain state key (.mapKey index) first).2]
      · simp [revisePair, childrenOfPair, seen, (hplain state key (.mapKey index) first).2]
  | _ => rfl

theorem revisePairs_state (hplain : ChildStep.Plain step f) (key mapped : TypeReference)
    (state : σ) (index : Nat) (done pairs : List Json) :
    (revisePairs step key mapped state index done pairs).state =
      ((pairs.zipIdx index).flatMap fun (pair, index) =>
        childrenOfPair key mapped index pair).foldl (seen step) state := by
  induction pairs generalizing state index done with
  | nil => rfl
  | cons pair rest ih =>
      obtain ⟨-, hstopped⟩ := revisePair_plain hplain key mapped state index pair
      simp only [revisePairs, hstopped, Bool.false_eq_true, if_false]
      rw [ih, revisePair_state hplain, List.zipIdx_cons, List.flatMap_cons, List.foldl_append]

/-- A field that was revised does not come again, so the fields after it are met as they were. -/
theorem reviseFields_state (hplain : ChildStep.Plain step f) (state : σ) {entries met : Entries}
    {declared : List Field} (hnodup : (declared.map Field.name).Nodup)
    (hmet : ∀ field ∈ declared,
      Entries.value? met field.name = Entries.value? entries field.name) :
    (reviseFields step state met declared).state =
      (declared.filterMap fun field => (Entries.value? entries field.name).map fun value =>
        (⟨field.type, .field field.name, value⟩ : Child)).foldl (seen step) state := by
  induction declared generalizing state met with
  | nil => rfl
  | cons field rest ih =>
      obtain ⟨hnot, hrest⟩ := List.nodup_cons.mp hnodup
      obtain ⟨hfield, hothers⟩ := List.forall_mem_cons.mp hmet
      rw [reviseFields, hfield, List.filterMap_cons]
      cases hvalue : Entries.value? entries field.name with
      | none => exact ih state hrest hothers
      | some value =>
          obtain ⟨-, hstopped⟩ := hplain state field.type (.field field.name) value
          simp only [hstopped, Bool.false_eq_true, if_false]
          rw [ih _ hrest fun other hother => ?_]
          · rfl
          · have hne : field.name ≠ other.name := fun hsame =>
              hnot (hsame ▸ List.mem_map_of_mem hother)
            rw [Entries.value?_assign, if_neg hne, hothers other hother]

/-- A walk over parts takes its state through the children, in order. -/
theorem revise_state (hplain : ChildStep.Plain step f) (state : σ) (value : Json) (parts : Parts)
    (hnodup : ∀ declared entries, parts = .fields declared entries →
      (declared.map Field.name).Nodup) :
    (parts.revise step state value).state =
      (parts.children value).foldl (seen step) state := by
  cases parts with
  | none => rfl
  | fields declared entries =>
      exact reviseFields_state hplain state (hnodup declared entries rfl) fun _ _ => rfl
  | items element stored => exact reviseItems_state hplain element state 0 [] stored
  | payload alternative index held => rfl
  | pointee target => rfl
  | pairs key mapped stored => exact revisePairs_state hplain key mapped state 0 [] stored

end Parts

namespace Registry

variable {registry : Registry} {f : TypeReference → Json → Json}

/-- The fields among the parts of a value are the effective fields of its record. -/
theorem eq_allFields_of_parts {reference : TypeReference} {value : Json} {declared : List Field}
    {entries : Entries} (h : registry.parts reference value = .fields declared entries) :
    declared = registry.allFields reference.handle := by
  have hparts := registry.partsOf_parts reference value
  rw [h] at hparts
  cases hparts with
  | fields entries hfound hbody => rfl

/-- What a walk of at most `levels` steps meets inside a value, in order. -/
def metWithin (registry : Registry) (f : TypeReference → Json → Json) :
    Nat → TypeReference → Json → List Visit
  | 0, _, _ => []
  | levels + 1, reference, value =>
    (registry.childValues reference value).flatMap fun child =>
      (⟨child.type, .root, child.value⟩ ::
        registry.metWithin f levels child.type (f child.type child.value)).map
          (Visit.under ⟨[child.segment]⟩)

/-- The state that a walk ends in is the fold of its step along what it meets. -/
theorem reviseWithin_state {step : Step σ} (hplain : step.Plain f)
    (hnames : ∀ handle, (registry.allFieldNames handle).Nodup) (levels : Nat) (state : σ)
    (reference : TypeReference) (path : ValuePath) (value : Json) :
    (registry.reviseWithin step levels state reference path value).state =
      ((registry.metWithin f levels reference value).map (Visit.under path)).foldl
        (fun state (visit : Visit) => (step state visit.type visit.path visit.value).state)
        state := by
  induction levels generalizing state reference path value with
  | zero => rfl
  | succ levels ih =>
      have hchild : ChildStep.Plain
          (fun state type segment child =>
            let answer := step state type (path.push segment) child
            if answer.stopped then answer
            else registry.reviseWithin step levels answer.state type (path.push segment) answer.value :
            ChildStep σ)
          fun type child => registry.mapWithin f levels type (f type child) := by
        intro state type segment child
        obtain ⟨hvalue, hstopped⟩ := hplain state type (path.push segment) child
        simp only [hstopped, Bool.false_eq_true, if_false, hvalue]
        exact reviseWithin_plain hplain levels _ type _ _
      rw [reviseWithin]
      simp only
      rw [Parts.revise_state hchild state value _ fun declared entries hparts =>
        eq_allFields_of_parts hparts ▸ hnames _]
      rw [metWithin, List.map_flatMap, List.foldl_flatMap]
      refine List.foldl_ext _ _ _ fun state child _ => ?_
      obtain ⟨hvalue, hstopped⟩ := hplain state child.type (path.push child.segment) child.value
      simp only [Parts.seen, hstopped, Bool.false_eq_true, if_false, hvalue]
      rw [ih, List.map_map, List.map_cons, List.foldl_cons]
      have hunder : Visit.under path ∘ Visit.under ⟨[child.segment]⟩ =
          Visit.under (path.push child.segment) :=
        funext fun visit => (Visit.under_push path child.segment visit).symm
      rw [hunder, Visit.under_here]

end Registry
end LiveSchema
