import LiveSchema.Proofs.Value.Alike
import LiveSchema.Proofs.Value.Entries
import LiveSchema.Value.Revise

/-!
# The revising walk without its state

A step whose answer does not depend on the state, and which never stops, makes of the revising walk a
plain function on values.  This function puts an answer in the place of every child, so what it makes
of a value conforms as soon as the outermost level fits and all answers conform.
-/

namespace LiveSchema

universe u

variable {σ : Type u}

namespace Parts

/-- Changes the key and the value of an entry of a map. -/
def mapPair (f : TypeReference → Json → Json) (key mapped : TypeReference) : Json → Json
  | .array [first] => .array [f key first]
  | .array (first :: second :: surplus) => .array (f key first :: f mapped second :: surplus)
  | pair => pair

/-- Changes the fields of an object. -/
def mapFields (f : TypeReference → Json → Json) (entries : Entries) : List Field → Entries
  | [] => entries
  | field :: rest =>
    match Entries.value? entries field.name with
    | Option.none => mapFields f entries rest
    | some value => mapFields f (Entries.assign field.name (f field.type value) entries) rest

/-- Changes the children among the parts of `value`. -/
def mapChildren (f : TypeReference → Json → Json) (value : Json) : Parts → Json
  | .none => value
  | .fields declared entries => .object (mapFields f entries declared)
  | .items element stored => .array (stored.map (f element))
  | .payload alternative index held => .array [index, f alternative held]
  | .pointee target => f target value
  | .pairs key mapped stored => .array (stored.map (mapPair f key mapped))

end Parts

namespace Registry

/-- Changes the values inside a value, at most `levels` steps deep. -/
def mapWithin (registry : Registry) (f : TypeReference → Json → Json) :
    Nat → TypeReference → Json → Json
  | 0, _, value => value
  | levels + 1, reference, value =>
    (registry.parts reference value).mapChildren
      (fun type child => registry.mapWithin f levels type (f type child)) value

/-- The walk through everything inside a value, without a bound: every value inside is changed, then
what lies inside the answer, and so on to the end. -/
inductive Walks (registry : Registry) (f : TypeReference → Json → Json) :
    TypeReference → Json → Json → Prop
  | through {reference : TypeReference} {value : Json} (answer : TypeReference → Json → Json)
      (inside : ∀ type inner, registry.Inside reference value type inner →
        Walks registry f type (f type inner) (answer type inner)) :
      Walks registry f reference value ((registry.parts reference value).mapChildren answer value)

end Registry

/-- The step answers what a function says and never stops. -/
def Step.Plain (step : Step σ) (f : TypeReference → Json → Json) : Prop :=
  ∀ state type path value,
    (step state type path value).value = f type value ∧
      (step state type path value).stopped = false

/-- The step for children answers what a function says and never stops. -/
def ChildStep.Plain (step : ChildStep σ) (f : TypeReference → Json → Json) : Prop :=
  ∀ state type segment value,
    (step state type segment value).value = f type value ∧
      (step state type segment value).stopped = false

namespace Parts

variable {step : ChildStep σ} {f : TypeReference → Json → Json}

theorem reviseItems_plain (hplain : ChildStep.Plain step f) (element : TypeReference) (state : σ)
    (index : Nat) (done items : List Json) :
    (reviseItems step element state index done items).value =
        done.reverse ++ items.map (f element) ∧
      (reviseItems step element state index done items).stopped = false := by
  induction items generalizing state index done with
  | nil => simp [reviseItems]
  | cons item rest ih =>
      obtain ⟨hvalue, hstopped⟩ := hplain state element (.index index) item
      simp only [reviseItems, hstopped, Bool.false_eq_true, if_false, hvalue]
      obtain ⟨hrest, hend⟩ := ih (step state element (.index index) item).state (index + 1)
        (f element item :: done)
      exact ⟨by rw [hrest]; simp, hend⟩

theorem revisePair_plain (hplain : ChildStep.Plain step f) (key mapped : TypeReference)
    (state : σ) (index : Nat) (pair : Json) :
    (revisePair step key mapped state index pair).value = mapPair f key mapped pair ∧
      (revisePair step key mapped state index pair).stopped = false := by
  cases pair with
  | array items =>
      rcases items with _ | ⟨first, _ | ⟨second, surplus⟩⟩
      · simp [revisePair, mapPair]
      · obtain ⟨hvalue, hstopped⟩ := hplain state key (.mapKey index) first
        simp [revisePair, mapPair, hstopped, hvalue]
      · obtain ⟨hkey, hstopped⟩ := hplain state key (.mapKey index) first
        obtain ⟨hmapped, hend⟩ := hplain (step state key (.mapKey index) first).state mapped
          (.mapValue index) second
        simp [revisePair, mapPair, hstopped, hkey, hmapped, hend]
  | _ => simp [revisePair, mapPair]

theorem revisePairs_plain (hplain : ChildStep.Plain step f) (key mapped : TypeReference)
    (state : σ) (index : Nat) (done pairs : List Json) :
    (revisePairs step key mapped state index done pairs).value =
        done.reverse ++ pairs.map (mapPair f key mapped) ∧
      (revisePairs step key mapped state index done pairs).stopped = false := by
  induction pairs generalizing state index done with
  | nil => simp [revisePairs]
  | cons pair rest ih =>
      obtain ⟨hvalue, hstopped⟩ := revisePair_plain hplain key mapped state index pair
      simp only [revisePairs, hstopped, Bool.false_eq_true, if_false, hvalue]
      obtain ⟨hrest, hend⟩ := ih (revisePair step key mapped state index pair).state (index + 1)
        (mapPair f key mapped pair :: done)
      exact ⟨by rw [hrest]; simp, hend⟩

theorem reviseFields_plain (hplain : ChildStep.Plain step f) (state : σ) (entries : Entries)
    (fields : List Field) :
    (reviseFields step state entries fields).value = mapFields f entries fields ∧
      (reviseFields step state entries fields).stopped = false := by
  induction fields generalizing state entries with
  | nil => simp [reviseFields, mapFields]
  | cons field rest ih =>
      rw [reviseFields, mapFields]
      cases hfound : Entries.value? entries field.name with
      | none => exact ih state entries
      | some value =>
          obtain ⟨hvalue, hstopped⟩ := hplain state field.type (.field field.name) value
          simp only [hstopped, Bool.false_eq_true, if_false, hvalue]
          exact ih _ _

theorem revise_plain (hplain : ChildStep.Plain step f) (state : σ) (value : Json)
    (parts : Parts) :
    (parts.revise step state value).value = parts.mapChildren f value ∧
      (parts.revise step state value).stopped = false := by
  cases parts with
  | none => exact ⟨rfl, rfl⟩
  | fields declared entries =>
      obtain ⟨hvalue, hstopped⟩ := reviseFields_plain hplain state entries declared
      exact ⟨congrArg Json.object hvalue, hstopped⟩
  | items element stored =>
      obtain ⟨hvalue, hstopped⟩ := reviseItems_plain hplain element state 0 [] stored
      exact ⟨congrArg Json.array hvalue, hstopped⟩
  | payload alternative index held =>
      obtain ⟨hvalue, hstopped⟩ := hplain state alternative .payload held
      exact ⟨by simp [revise, mapChildren, hvalue], hstopped⟩
  | pointee target => exact hplain state target .pointee value
  | pairs key mapped stored =>
      obtain ⟨hvalue, hstopped⟩ := revisePairs_plain hplain key mapped state 0 [] stored
      exact ⟨congrArg Json.array hvalue, hstopped⟩

end Parts

namespace Registry

variable {registry : Registry} {f : TypeReference → Json → Json}

/-- The walk with a plain step is a function on values. -/
theorem reviseWithin_plain {step : Step σ} (hplain : step.Plain f) (levels : Nat) (state : σ)
    (reference : TypeReference) (path : ValuePath) (value : Json) :
    (registry.reviseWithin step levels state reference path value).value =
        registry.mapWithin f levels reference value ∧
      (registry.reviseWithin step levels state reference path value).stopped = false := by
  induction levels generalizing state reference path value with
  | zero => exact ⟨rfl, rfl⟩
  | succ levels ih =>
      rw [reviseWithin, mapWithin]
      refine Parts.revise_plain (fun state type segment child => ?_) state value _
      obtain ⟨hvalue, hstopped⟩ := hplain state type (path.push segment) child
      simp only [hstopped, Bool.false_eq_true, if_false, hvalue]
      exact ih _ _ _ _

end Registry

/-! ## Putting answers in place -/

namespace Parts

variable {f : TypeReference → Json → Json} {entries : Entries} {fields : List Field}

theorem value?_mapFields_of_not_mem {name : String} (h : name ∉ fields.map Field.name) :
    Entries.value? (mapFields f entries fields) name = Entries.value? entries name := by
  induction fields generalizing entries with
  | nil => rfl
  | cons field rest ih =>
      rw [List.map_cons, List.mem_cons, not_or] at h
      rw [mapFields]
      cases Entries.value? entries field.name with
      | none => exact ih h.2
      | some value =>
          simp only
          rw [ih h.2, Entries.value?_assign, if_neg (Ne.symm h.1)]

/-- Every field has the answer for its former value. -/
theorem value?_mapFields {field : Field} (hnodup : (fields.map Field.name).Nodup)
    (hmem : field ∈ fields) :
    Entries.value? (mapFields f entries fields) field.name =
      (Entries.value? entries field.name).map (f field.type) := by
  induction fields generalizing entries with
  | nil => exact absurd hmem List.not_mem_nil
  | cons first rest ih =>
      obtain ⟨hnot, hrest⟩ := List.nodup_cons.mp hnodup
      rw [mapFields]
      rcases List.mem_cons.mp hmem with rfl | hmem
      · cases hvalue : Entries.value? entries field.name with
        | none =>
            simp only [Option.map_none]
            rw [value?_mapFields_of_not_mem hnot, hvalue]
        | some value =>
            simp only [Option.map_some]
            rw [value?_mapFields_of_not_mem hnot, Entries.value?_assign, if_pos rfl]
      · have hne : first.name ≠ field.name := by
          intro hsame
          exact hnot (hsame ▸ List.mem_map_of_mem hmem)
        cases Entries.value? entries first.name with
        | none => exact ih hrest hmem
        | some value =>
            simp only
            rw [ih hrest hmem, Entries.value?_assign, if_neg hne]

theorem keys_mapFields (f : TypeReference → Json → Json) (entries : Entries)
    (fields : List Field) : Entries.keys (mapFields f entries fields) = Entries.keys entries := by
  induction fields generalizing entries with
  | nil => rfl
  | cons field rest ih =>
      rw [mapFields]
      cases hvalue : Entries.value? entries field.name with
      | none => exact ih entries
      | some value =>
          simp only
          rw [ih, Entries.keys_assign_of_mem (Entries.exists_value?_iff.mp ⟨value, hvalue⟩)]

end Parts

end LiveSchema
