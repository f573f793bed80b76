import LiveSchema.Proofs.Value.Keys
import LiveSchema.Value.Revise

/-!
# The revising walk keeps keys distinct

A step of the walk answers a value and a new state.  If every step keeps a condition on the state, and
answers no value that repeats a key, then so does the whole walk.
-/

namespace LiveSchema

universe u

variable {σ : Type u} {Sound : σ → Prop}

/-- The state is sound, and no object in the value repeats a key. -/
def Outcome.Keeps (Sound : σ → Prop) (outcome : Outcome σ Json) : Prop :=
  Sound outcome.state ∧ outcome.value.HasDistinctKeys

/-- Handed a sound state and a value without repeated keys, the step answers the same. -/
def Step.Keeps (Sound : σ → Prop) (step : Step σ) : Prop :=
  ∀ state type path value, Sound state → value.HasDistinctKeys →
    (step state type path value).Keeps Sound

/-- Handed a sound state and a value without repeated keys, the step for children answers the same. -/
def ChildStep.Keeps (Sound : σ → Prop) (step : ChildStep σ) : Prop :=
  ∀ state type segment value, Sound state → value.HasDistinctKeys →
    (step state type segment value).Keeps Sound

namespace Parts

open Json

/-- No object among the parts repeats a key. -/
def HasDistinctKeys : Parts → Prop
  | .none | .pointee _ => True
  | .fields _ entries => (object entries).HasDistinctKeys
  | .items _ stored => (array stored).HasDistinctKeys
  | .payload _ index held => index.HasDistinctKeys ∧ held.HasDistinctKeys
  | .pairs _ _ stored => (array stored).HasDistinctKeys

variable {step : ChildStep σ} {state : σ}

theorem reviseItems_keeps (hstep : ChildStep.Keeps Sound step) (element : TypeReference) (index : Nat)
    {done items : List Json} (hstate : Sound state) (hdone : (array done).HasDistinctKeys)
    (hitems : (array items).HasDistinctKeys) :
    Sound (reviseItems step element state index done items).state ∧
      (array (reviseItems step element state index done items).value).HasDistinctKeys := by
  rw [hasDistinctKeys_array] at hdone hitems
  induction items generalizing state index done with
  | nil => exact ⟨hstate, by simpa [reviseItems] using hdone⟩
  | cons item rest ih =>
      obtain ⟨hitem, hrest⟩ := List.forall_mem_cons.mp hitems
      obtain ⟨hnext, hvalue⟩ := hstep state element (.index index) item hstate hitem
      rw [reviseItems]
      split
      · refine ⟨hnext, ?_⟩
        simp only [hasDistinctKeys_array, List.forall_mem_append, List.mem_reverse,
          List.forall_mem_cons]
        exact ⟨hdone, hvalue, hrest⟩
      · exact ih (index + 1) hnext (List.forall_mem_cons.mpr ⟨hvalue, hdone⟩) hrest

theorem revisePair_keeps (hstep : ChildStep.Keeps Sound step) (key mapped : TypeReference)
    (index : Nat) {pair : Json} (hstate : Sound state) (hpair : pair.HasDistinctKeys) :
    (revisePair step key mapped state index pair).Keeps Sound := by
  unfold revisePair
  split
  next first rest =>
      obtain ⟨hfirst, hrest⟩ := List.forall_mem_cons.mp (hasDistinctKeys_array.mp hpair)
      obtain ⟨hnext, hkey⟩ := hstep state key (.mapKey index) first hstate hfirst
      dsimp only
      split
      · exact ⟨hnext, hasDistinctKeys_array.mpr (List.forall_mem_cons.mpr ⟨hkey, hrest⟩)⟩
      · split
        next => exact ⟨hnext, by simpa using hkey⟩
        next second surplus =>
            obtain ⟨hsecond, hsurplus⟩ := List.forall_mem_cons.mp hrest
            obtain ⟨hend, hmapped⟩ := hstep _ mapped (.mapValue index) second hnext hsecond
            refine ⟨hend, hasDistinctKeys_array.mpr ?_⟩
            simp only [List.forall_mem_cons]
            exact ⟨hkey, hmapped, hsurplus⟩
  next => exact ⟨hstate, hpair⟩

theorem revisePairs_keeps (hstep : ChildStep.Keeps Sound step) (key mapped : TypeReference)
    (index : Nat) {done pairs : List Json} (hstate : Sound state)
    (hdone : (array done).HasDistinctKeys) (hpairs : (array pairs).HasDistinctKeys) :
    Sound (revisePairs step key mapped state index done pairs).state ∧
      (array (revisePairs step key mapped state index done pairs).value).HasDistinctKeys := by
  rw [hasDistinctKeys_array] at hdone hpairs
  induction pairs generalizing state index done with
  | nil => exact ⟨hstate, by simpa [revisePairs] using hdone⟩
  | cons pair rest ih =>
      obtain ⟨hpair, hrest⟩ := List.forall_mem_cons.mp hpairs
      obtain ⟨hnext, hvalue⟩ := revisePair_keeps hstep key mapped index hstate hpair
      rw [revisePairs]
      split
      · refine ⟨hnext, ?_⟩
        simp only [hasDistinctKeys_array, List.forall_mem_append, List.mem_reverse,
          List.forall_mem_cons]
        exact ⟨hdone, hvalue, hrest⟩
      · exact ih (index + 1) hnext (List.forall_mem_cons.mpr ⟨hvalue, hdone⟩) hrest

theorem reviseFields_keeps (hstep : ChildStep.Keeps Sound step) {entries : Entries}
    (hstate : Sound state) (hentries : (object entries).HasDistinctKeys) (fields : List Field) :
    Sound (reviseFields step state entries fields).state ∧
      (object (reviseFields step state entries fields).value).HasDistinctKeys := by
  induction fields generalizing state entries with
  | nil => exact ⟨hstate, hentries⟩
  | cons field rest ih =>
      rw [reviseFields]
      cases hfound : Entries.value? entries field.name with
      | none => exact ih hstate hentries
      | some value =>
          obtain ⟨hnext, hvalue⟩ := hstep state field.type (.field field.name) value hstate
            (Entries.hasDistinctKeys_of_value? hentries hfound)
          have hassigned := Entries.hasDistinctKeys_assign hentries hvalue field.name
          dsimp only
          split
          · exact ⟨hnext, hassigned⟩
          · exact ih hnext hassigned

theorem revise_keeps (hstep : ChildStep.Keeps Sound step) {value : Json} {parts : Parts}
    (hstate : Sound state) (hvalue : value.HasDistinctKeys) (hparts : parts.HasDistinctKeys) :
    (parts.revise step state value).Keeps Sound := by
  cases parts with
  | none => exact ⟨hstate, hvalue⟩
  | fields declared entries => exact reviseFields_keeps hstep hstate hparts declared
  | items element stored =>
      exact reviseItems_keeps hstep element 0 hstate (by simp) hparts
  | payload alternative index held =>
      obtain ⟨hindex, hheld⟩ := hparts
      obtain ⟨hnext, hanswer⟩ := hstep state alternative .payload held hstate hheld
      exact ⟨hnext, by simpa [revise] using ⟨hindex, hanswer⟩⟩
  | pointee target => exact hstep state target .pointee value hstate hvalue
  | pairs key mapped stored =>
      exact revisePairs_keeps hstep key mapped 0 hstate (by simp) hparts

end Parts

namespace Registry

open Json

theorem hasDistinctKeys_parts (registry : Registry) (reference : TypeReference) {value : Json}
    (h : value.HasDistinctKeys) : (registry.parts reference value).HasDistinctKeys := by
  have hparts := registry.partsOf_parts reference value
  generalize registry.parts reference value = parts at hparts ⊢
  cases hparts with
  | none | pointee => trivial
  | fields | items | pairs => exact h
  | payload => simpa [Parts.HasDistinctKeys] using h

theorem reviseWithin_keeps {registry : Registry} {step : Step σ} (hstep : step.Keeps Sound)
    (levels : Nat) {state : σ} (reference : TypeReference) (path : ValuePath) {value : Json}
    (hstate : Sound state) (hvalue : value.HasDistinctKeys) :
    (registry.reviseWithin step levels state reference path value).Keeps Sound := by
  induction levels generalizing state reference path value with
  | zero => exact ⟨hstate, hvalue⟩
  | succ levels ih =>
      rw [reviseWithin]
      refine Parts.revise_keeps (fun state type segment child hstate hchild => ?_) hstate hvalue
        (registry.hasDistinctKeys_parts reference hvalue)
      have hanswer := hstep state type (path.push segment) child hstate hchild
      dsimp only
      split
      · exact hanswer
      · exact ih type _ hanswer.1 hanswer.2

/-- A walk keeps what each of its steps keeps. -/
theorem revise_keeps {registry : Registry} {step : Step σ} (hstep : step.Keeps Sound) (room : Nat)
    {state : σ} (reference : TypeReference) {value : Json} (hstate : Sound state)
    (hvalue : value.HasDistinctKeys) :
    (registry.revise room step state reference value).Keeps Sound :=
  reviseWithin_keeps hstep _ reference .root hstate hvalue

end Registry
end LiveSchema
