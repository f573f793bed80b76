import LiveSchema.Proofs.VisitedValues

/-!
# Walks that change nothing

A walk that only looks calls back for everything inside a value, child by child.  The callback carries a
state and may stop the walk, so the walk goes along the list of visits until it is stopped.  A revising
walk whose step answers what it is handed makes the same calls and leaves the value as it is.  The value
may be malformed, and the registry may be any.
-/

namespace LiveSchema

universe u v

variable {σ : Type u} {α : Type v}

/-- Goes through a list until a step stops: the last state, and whether a step stopped. -/
def goThrough (step : σ → α → σ × Bool) (state : σ) : List α → σ × Bool
  | [] => (state, false)
  | a :: rest => if (step state a).2 then step state a else goThrough step (step state a).1 rest

section GoThrough

variable {β : Type v} {step : σ → α → σ × Bool} {state : σ}

theorem goThrough_singleton (a : α) : goThrough step state [a] = step state a := by
  by_cases hstop : (step state a).2 = true
  · rw [goThrough, if_pos hstop]
  · rw [goThrough, if_neg hstop, goThrough]
    exact Prod.ext rfl (Bool.eq_false_iff.mpr hstop).symm

theorem goThrough_append (front back : List α) :
    goThrough step state (front ++ back) =
      if (goThrough step state front).2 then goThrough step state front
      else goThrough step (goThrough step state front).1 back := by
  induction front generalizing state with
  | nil => rfl
  | cons a rest ih =>
      rw [List.cons_append, goThrough, goThrough]
      by_cases hstop : (step state a).2 = true
      · simp only [if_pos hstop]
      · simp only [if_neg hstop]
        exact ih

theorem goThrough_map {step : σ → β → σ × Bool} (f : α → β) (list : List α) :
    goThrough step state (list.map f) = goThrough (fun state a => step state (f a)) state list := by
  induction list generalizing state with
  | nil => rfl
  | cons a rest ih => rw [List.map_cons, goThrough, goThrough, ih]

theorem goThrough_flatMap {step : σ → β → σ × Bool} (f : α → List β) (list : List α) :
    goThrough step state (list.flatMap f) =
      goThrough (fun state a => goThrough step state (f a)) state list := by
  induction list generalizing state with
  | nil => rfl
  | cons a rest ih => rw [List.flatMap_cons, goThrough_append, goThrough, ih]

theorem goThrough_congr {other : σ → α → σ × Bool} {list : List α}
    (h : ∀ a ∈ list, ∀ state, step state a = other state a) :
    goThrough step state list = goThrough other state list := by
  induction list generalizing state with
  | nil => rfl
  | cons a rest ih =>
      obtain ⟨hfirst, hrest⟩ := List.forall_mem_cons.mp h
      rw [goThrough, goThrough, hfirst, ih hrest]

end GoThrough

/-- What is called with a visit: the next state, and whether the walk is to stop. -/
abbrev Callback (σ : Type u) :=
  σ → Visit → σ × Bool

namespace Registry

variable {registry : Registry} {call : Callback σ} {state : σ} {reference : TypeReference}
  {value : Json}

/-- Calls back for everything inside a value, `path` leading to the value itself: for each child, and
then for everything inside this child. -/
def walk (registry : Registry) (call : Callback σ) (state : σ) (path : ValuePath)
    (reference : TypeReference) (value : Json) : σ × Bool :=
  goThrough (fun state (child : { child // child ∈ registry.childValues reference value }) =>
      let here := path.push child.1.segment
      let answer := call state ⟨child.1.type, here, child.1.value⟩
      if answer.2 then answer
      else registry.walk call answer.1 here child.1.type child.1.value)
    state (registry.childValues reference value).attach
termination_by (sizeOf value, sizeOf reference)
decreasing_by exact child_smaller child.2

/-- A walk calls back for the visits, in order, until it is stopped. -/
theorem walk_eq_goThrough (path : ValuePath) :
    registry.walk call state path reference value =
      goThrough call state (registry.visitsFrom path reference value) := by
  induction reference, value using registry.child_induction generalizing state path with
  | step reference value ih =>
      rw [walk, visitsFrom_eq, goThrough_flatMap]
      conv_rhs => rw [← List.attach_map_subtype_val (registry.childValues reference value)]
      rw [goThrough_map]
      refine goThrough_congr fun child _ state => ?_
      rw [goThrough]
      simp only [ih child.1 child.2]

end Registry

/-! ## Calls that are written down -/

namespace Callback

variable {call : Callback σ} {state : σ}

/-- The callback that also writes down its calls. -/
def logged (call : Callback σ) : Callback (σ × List Visit) := fun state visit =>
  (((call state.1 visit).1, state.2 ++ [visit]), (call state.1 visit).2)

/-- The state after calls none of which stops the walk. -/
def after (call : Callback σ) (state : σ) (visits : List Visit) : σ :=
  visits.foldl (fun state visit => (call state visit).1) state

/-- The callback stops at a visit, if it is called for the visits before it first. -/
def StopsAt (call : Callback σ) (state : σ) (before : List Visit) (visit : Visit) : Prop :=
  (call (call.after state before) visit).2 = true

/-- The callback stops at none of the visits. -/
def Passes (call : Callback σ) (state : σ) (visits : List Visit) : Prop :=
  ∀ before visit rest, visits = before ++ visit :: rest → ¬ call.StopsAt state before visit

theorem passes_cons {visit : Visit} {rest : List Visit} (hvisit : ¬ (call state visit).2 = true)
    (hrest : call.Passes (call state visit).1 rest) : call.Passes state (visit :: rest) := by
  intro before other behind hsplit
  cases before with
  | nil =>
      obtain ⟨rfl, -⟩ := List.cons.inj hsplit
      exact hvisit
  | cons first before =>
      obtain ⟨rfl, hbehind⟩ := List.cons.inj hsplit
      exact hrest before other behind hbehind

/-- The calls written down are all visits, or those up to the first one at which the callback stops. -/
theorem goThrough_logged_cases (call : Callback σ) (state : σ) (made visits : List Visit) :
    call.Passes state visits ∧
        goThrough call.logged (state, made) visits =
          ((call.after state visits, made ++ visits), false) ∨
      ∃ before visit rest, visits = before ++ visit :: rest ∧ call.Passes state before ∧
        call.StopsAt state before visit ∧
        goThrough call.logged (state, made) visits =
          ((call.after state (before ++ [visit]), made ++ (before ++ [visit])), true) := by
  induction visits generalizing state made with
  | nil =>
      refine Or.inl ⟨fun before visit rest hsplit => ?_, by simp [goThrough, after]⟩
      exact absurd hsplit (by simp)
  | cons first behind ih =>
      have hfirst : call.logged (state, made) first =
          (((call state first).1, made ++ [first]), (call state first).2) := rfl
      rw [goThrough, hfirst]
      by_cases hstop : (call state first).2 = true
      · refine Or.inr ⟨[], first, behind, rfl, fun before visit rest hsplit => ?_, hstop, ?_⟩
        · exact absurd hsplit (by simp)
        · simp [after, hstop]
      · rw [if_neg hstop]
        rcases ih (call state first).1 (made ++ [first]) with
          ⟨hpasses, hcalls⟩ | ⟨before, visit, rest, rfl, hpasses, hstops, hcalls⟩
        · refine Or.inl ⟨passes_cons hstop hpasses, hcalls.trans ?_⟩
          rw [List.append_assoc]
          rfl
        · refine Or.inr ⟨first :: before, visit, rest, rfl, passes_cons hstop hpasses, hstops,
            hcalls.trans ?_⟩
          rw [List.append_assoc]
          rfl

end Callback

/-! ## Steps that answer what they are handed -/

/-- What a step does, its answers apart. -/
def Step.look (step : Step σ) : Callback σ := fun state visit =>
  let answer := step state visit.type visit.path visit.value
  (answer.state, answer.stopped)

/-- The step that also writes down its calls. -/
def Step.logged (step : Step σ) : Step (σ × List Visit) := fun state type path value =>
  let answer := step state.1 type path value
  ⟨(answer.state, state.2 ++ [⟨type, path, value⟩]), answer.value, answer.stopped⟩

/-- What a step for children does, its answers apart. -/
def ChildStep.look (step : ChildStep σ) (state : σ) (child : Child) : σ × Bool :=
  let answer := step state child.type child.segment child.value
  (answer.state, answer.stopped)

/-- The step answers what it is handed, for each of the children. -/
def ChildStep.Idle (step : ChildStep σ) (children : List Child) : Prop :=
  ∀ child ∈ children, ∀ state, (step state child.type child.segment child.value).value = child.value

/-- The outcome of a walk that leaves a value as it is. -/
def Outcome.unchanged {α : Type v} (value : α) (seen : σ × Bool) : Outcome σ α :=
  ⟨seen.1, value, seen.2⟩

theorem Outcome.eq_unchanged {α : Type v} {outcome : Outcome σ α} {value : α}
    (h : outcome.value = value) :
    outcome = .unchanged value (outcome.state, outcome.stopped) := by
  rw [← h]
  rfl

/-! ## One value -/

namespace Parts

variable {step : ChildStep σ}

theorem reviseItems_idle {element : TypeReference} {index : Nat} {items : List Json}
    (hidle : step.Idle ((items.zipIdx index).map fun (item, index) =>
      ⟨element, .index index, item⟩)) (state : σ) (done : List Json) :
    reviseItems step element state index done items = .unchanged (done.reverse ++ items)
      (goThrough step.look state ((items.zipIdx index).map fun (item, index) =>
        ⟨element, .index index, item⟩)) := by
  induction items generalizing state index done with
  | nil => simp [reviseItems, goThrough, Outcome.unchanged]
  | cons item rest ih =>
      rw [List.zipIdx_cons, List.map_cons] at hidle ⊢
      obtain ⟨hitem, hrest⟩ := List.forall_mem_cons.mp hidle
      have hvalue : (step state element (.index index) item).value = item := hitem state
      rw [reviseItems, goThrough, ChildStep.look]
      by_cases hstop : (step state element (.index index) item).stopped = true
      · simp [Outcome.unchanged, hstop, hvalue]
      · simp [hstop, hvalue, ih hrest]

theorem revisePair_idle {key mapped : TypeReference} {index : Nat} {pair : Json}
    (hidle : step.Idle (childrenOfPair key mapped index pair)) (state : σ) :
    revisePair step key mapped state index pair =
      .unchanged pair (goThrough step.look state (childrenOfPair key mapped index pair)) := by
  cases pair with
  | array items =>
      rcases items with _ | ⟨first, _ | ⟨second, surplus⟩⟩
      · rfl
      · have hkey : (step state key (.mapKey index) first).value = first :=
          List.forall_mem_singleton.mp hidle state
        rw [revisePair, childrenOfPair, goThrough_singleton, ChildStep.look]
        by_cases hstop : (step state key (.mapKey index) first).stopped = true
        · simp [Outcome.unchanged, hkey, hstop]
        · simp [Outcome.unchanged, hkey, hstop]
      · obtain ⟨hkeys, hmapped⟩ := List.forall_mem_cons.mp hidle
        have hkey : (step state key (.mapKey index) first).value = first := hkeys state
        have hsecond : ∀ state, (step state mapped (.mapValue index) second).value = second :=
          List.forall_mem_singleton.mp hmapped
        rw [revisePair, childrenOfPair, goThrough, goThrough_singleton, ChildStep.look]
        by_cases hstop : (step state key (.mapKey index) first).stopped = true
        · simp [Outcome.unchanged, hkey, hstop]
        · simp [Outcome.unchanged, ChildStep.look, hkey, hstop, hsecond]
  | _ => rfl

theorem revisePairs_idle {key mapped : TypeReference} {index : Nat} {pairs : List Json}
    (hidle : step.Idle ((pairs.zipIdx index).flatMap fun (pair, index) =>
      childrenOfPair key mapped index pair)) (state : σ) (done : List Json) :
    revisePairs step key mapped state index done pairs = .unchanged (done.reverse ++ pairs)
      (goThrough step.look state ((pairs.zipIdx index).flatMap fun (pair, index) =>
        childrenOfPair key mapped index pair)) := by
  induction pairs generalizing state index done with
  | nil => simp [revisePairs, goThrough, Outcome.unchanged]
  | cons pair rest ih =>
      rw [List.zipIdx_cons, List.flatMap_cons] at hidle ⊢
      obtain ⟨hpair, hrest⟩ := List.forall_mem_append.mp hidle
      rw [revisePairs, revisePair_idle hpair, goThrough_append]
      by_cases hstop :
          (goThrough step.look state (childrenOfPair key mapped index pair)).2 = true
      · simp [Outcome.unchanged, hstop]
      · simp [Outcome.unchanged, hstop, ih hrest]

theorem reviseFields_idle {entries : Entries} {declared : List Field}
    (hidle : step.Idle ((fields declared entries).children (.object entries))) (state : σ) :
    reviseFields step state entries declared = .unchanged entries
      (goThrough step.look state ((fields declared entries).children (.object entries))) := by
  induction declared generalizing state with
  | nil => rfl
  | cons field rest ih =>
      simp only [children, List.filterMap_cons] at hidle ih ⊢
      rw [reviseFields]
      cases hfound : Entries.value? entries field.name with
      | none =>
          simp only [hfound, Option.map_none] at hidle ⊢
          exact ih hidle state
      | some value =>
          simp only [hfound, Option.map_some] at hidle ⊢
          obtain ⟨hfirst, hrest⟩ := List.forall_mem_cons.mp hidle
          have hvalue : (step state field.type (.field field.name) value).value = value :=
            hfirst state
          simp only [hvalue, Entries.assign_of_value? hfound]
          rw [goThrough, ChildStep.look]
          by_cases hstop : (step state field.type (.field field.name) value).stopped = true
          · simp [Outcome.unchanged, hstop]
          · simp [hstop, ih hrest]

/-- A step that leaves the children as they are leaves the whole as it is, and is called for the
children in order until it stops. -/
theorem revise_idle {parts : Parts} {value : Json} (hidle : step.Idle (parts.children value))
    (state : σ) :
    parts.revise step state value =
      .unchanged (parts.whole value) (goThrough step.look state (parts.children value)) := by
  cases parts with
  | none => rfl
  | fields declared entries =>
      rw [revise, reviseFields_idle hidle]
      rfl
  | items element stored =>
      rw [revise, reviseItems_idle hidle]
      rfl
  | payload alternative index held =>
      have hheld : (step state alternative .payload held).value = held :=
        List.forall_mem_singleton.mp hidle state
      rw [revise, hheld, children, goThrough_singleton]
      rfl
  | pointee target =>
      have hvalue : (step state target .pointee value).value = value :=
        List.forall_mem_singleton.mp hidle state
      rw [revise, children, goThrough_singleton]
      exact Outcome.eq_unchanged hvalue
  | pairs key mapped stored =>
      rw [revise, revisePairs_idle hidle]
      rfl

end Parts

/-! ## The whole walk -/

namespace Registry

variable {registry : Registry} {reference : TypeReference} {value : Json} {step : Step σ}

/-- A walk of enough levels makes the calls of a walk that only looks. -/
theorem reviseWithin_idle {bound levels : Nat} (hnesting : registry.nesting ≤ bound)
    (hreference : reference.depth ≤ bound) (hextent : extent bound reference value ≤ levels)
    {path : ValuePath}
    (hidle : ∀ visit ∈ registry.visitsFrom path reference value, ∀ state,
      (step state visit.type visit.path visit.value).value = visit.value) (state : σ) :
    registry.reviseWithin step levels state reference path value =
      .unchanged value (goThrough step.look state (registry.visitsFrom path reference value)) := by
  induction levels generalizing reference value path state with
  | zero => exact absurd (extent_pos bound reference value) (Nat.not_lt.mpr hextent)
  | succ levels ih =>
      have hinner : ∀ child ∈ registry.childValues reference value, ∀ state,
          registry.reviseWithin step levels state child.type (path.push child.segment) child.value =
            .unchanged child.value (goThrough step.look state
              (registry.visitsFrom (path.push child.segment) child.type child.value)) := by
        intro child hchild state
        have hinside : registry.Inside reference value child.type child.value :=
          ⟨child, hchild, rfl, rfl⟩
        have hdepth := hinside.type_depth_le hnesting hreference
        have hless := hinside.extent_lt hdepth
        refine ih hdepth (by omega) (fun visit hvisit => hidle visit ?_) state
        exact mem_visitsFrom.mpr ⟨child, hchild, Or.inr hvisit⟩
      have hcall : ∀ child ∈ registry.childValues reference value, ∀ state,
          (step state child.type (path.push child.segment) child.value).value = child.value := by
        intro child hchild state
        exact hidle ⟨child.type, path.push child.segment, child.value⟩
          (mem_visitsFrom.mpr ⟨child, hchild, Or.inl rfl⟩) state
      have hstep : ∀ child ∈ registry.childValues reference value, ∀ state,
          (let answer := step state child.type (path.push child.segment) child.value
            if answer.stopped then answer
            else registry.reviseWithin step levels answer.state child.type (path.push child.segment)
              answer.value) =
            .unchanged child.value (goThrough step.look state
              (⟨child.type, path.push child.segment, child.value⟩ ::
                registry.visitsFrom (path.push child.segment) child.type child.value)) := by
        intro child hchild state
        have hvalue := hcall child hchild state
        rw [goThrough, Step.look]
        by_cases hstop :
            (step state child.type (path.push child.segment) child.value).stopped = true
        · simp only [if_pos hstop]
          exact Outcome.eq_unchanged hvalue
        · simp only [if_neg hstop, hvalue]
          exact hinner child hchild _
      rw [reviseWithin, Parts.revise_idle fun child hchild state =>
        congrArg Outcome.value (hstep child hchild state), whole_parts, visitsFrom_eq,
        goThrough_flatMap]
      refine congrArg _ (goThrough_congr fun child hchild state => ?_)
      exact congrArg (fun outcome => (outcome.state, outcome.stopped)) (hstep child hchild state)

/-- With a callback that writes down its calls and goes by the call alone, the walk makes the calls
that the list of visits has up to the first stop. -/
theorem walk_eq_visitsUntil (stop : Visit → Bool) :
    registry.walk (fun made visit => (made ++ [visit], stop visit)) [] .root reference value =
      visitsUntil stop (registry.visits reference value) := by
  have hlist : ∀ made visits,
      goThrough (fun made visit => (made ++ [visit], stop visit)) made visits =
        (made ++ (visitsUntil stop visits).1, (visitsUntil stop visits).2) := by
    intro made visits
    induction visits generalizing made with
    | nil => simp [goThrough, visitsUntil]
    | cons visit rest ih =>
        rw [goThrough, visitsUntil]
        by_cases hstop : stop visit = true
        · simp only [if_pos hstop]
          rw [hstop]
        · simp only [if_neg hstop]
          rw [ih, List.append_assoc]
          rfl
  rw [walk_eq_goThrough, hlist]
  rfl

/-- A revising walk whose step changes none of the values it is called for makes the calls of the walk
that only looks, ends as that walk does, and leaves the value as it is.  The calls are all visits, or
those up to the first one at which the step stops. -/
theorem revise_eq_walk_of_idle (room : Nat) (state : σ)
    (hidle : ∀ visit ∈ registry.visits reference value, ∀ state,
      (step state visit.type visit.path visit.value).value = visit.value) :
    let visits := registry.visits reference value
    let looked := registry.walk step.look.logged (state, []) .root reference value
    registry.revise room step.logged (state, []) reference value = ⟨looked.1, value, looked.2⟩ ∧
      registry.walk (fun made visit => (made ++ [visit], false)) [] .root reference value =
        (visits, false) ∧
      (looked.2 = false ∧ looked.1.2 = visits ∧ step.look.Passes state visits ∨
        looked.2 = true ∧ ∃ before visit rest, visits = before ++ visit :: rest ∧
          looked.1.2 = before ++ [visit] ∧ step.look.Passes state before ∧
          step.look.StopsAt state before visit) ∧
      ∀ stop : Visit → Bool,
        registry.walk (fun made visit => (made ++ [visit], stop visit)) [] .root reference value =
          visitsUntil stop visits := by
  intro visits looked
  have hlooked : looked = goThrough step.look.logged (state, []) visits := walk_eq_goThrough _
  refine ⟨?_, ?_, ?_, walk_eq_visitsUntil⟩
  · obtain ⟨levels, hlevels, hextent⟩ := registry.exists_walkDepth_eq reference value room
    rw [revise, hlevels, hlooked]
    exact reviseWithin_idle (Nat.le_max_right _ _) (Nat.le_max_left _ _)
      (Nat.le_succ_of_le hextent) (fun visit hvisit state => hidle visit hvisit state.1) _
  · rw [walk_eq_visitsUntil, visitsUntil_never]
  · rcases step.look.goThrough_logged_cases state [] visits with
      ⟨hpasses, hcalls⟩ | ⟨before, visit, rest, hvisits, hpasses, hstops, hcalls⟩
    · rw [hlooked, hcalls]
      exact Or.inl ⟨rfl, rfl, hpasses⟩
    · rw [hlooked, hcalls]
      exact Or.inr ⟨rfl, before, visit, rest, hvisits, rfl, hpasses, hstops⟩

/-- A step that counts its calls stops at the text behind the pointer of the second entry of a map. -/
theorem revise_eq_walk_of_idle_counting :
    let owned : TypeReference := ⟨⟨18⟩, [.type (.plain ⟨12⟩)]⟩
    let reference : TypeReference := ⟨⟨20⟩, [.type (.plain ⟨11⟩), .type owned]⟩
    let value : Json := .array
      [.array [.bool true, .null], .array [.bool false, .string "x"], .array [.bool true, .null]]
    let step : Step Nat := fun calls type _ value => ⟨calls + 1, value, type.handle = ⟨12⟩⟩
    let revised := initial.revise 0 step.logged (0, []) reference value
    (∀ visit ∈ initial.visits reference value, ∀ calls,
        (step calls visit.type visit.path visit.value).value = visit.value) ∧
      revised.value = value ∧ revised.stopped = true ∧ revised.state.1 = 5 ∧
      revised.state.2.map (·.path.render) =
        ["[0].key", "[0].value", "[1].key", "[1].value", "[1].value*"] := by
  intro owned reference value step revised
  have hidle : ∀ visit ∈ initial.visits reference value, ∀ calls,
      (step calls visit.type visit.path visit.value).value = visit.value := fun _ _ _ => rfl
  obtain ⟨hrevised, -, -, -⟩ := revise_eq_walk_of_idle 0 0 hidle
  refine ⟨hidle, by rw [show revised = _ from hrevised], ?_⟩
  simp only [revised, value, reference, owned, step]
  cbv

end Registry
end LiveSchema
