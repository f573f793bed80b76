import LiveSchema.Value.Visit

/-!
# Revising values

A revising walk hands every value inside a value to a step, in pre-order, and puts what the step
answers in its place.  The walk then goes on inside the answer, so a step may reshape what it is
handed.  A step also carries a state and may stop the walk.

Steps that make values deeper are allowed for by a bound: the walk goes no deeper than the value with
`room` further levels of containers.
-/

namespace LiveSchema

variable {σ : Type u}

/-- What a step or a walk answers. -/
structure Outcome (σ : Type u) (α : Type v) where
  state : σ
  value : α
  stopped : Bool

/-- A step of a revising walk. -/
abbrev Step (σ : Type u) :=
  σ → TypeReference → ValuePath → Json → Outcome σ Json

/-- A step for the child of a given type behind a given segment. -/
abbrev ChildStep (σ : Type u) :=
  σ → TypeReference → PathSegment → Json → Outcome σ Json

namespace Parts

/-- Revises the elements of a list from position `index` on; `done` holds those before, last
first. -/
def reviseItems (step : ChildStep σ) (element : TypeReference) (state : σ) (index : Nat)
    (done : List Json) : List Json → Outcome σ (List Json)
  | [] => ⟨state, done.reverse, false⟩
  | item :: rest =>
    let answer := step state element (.index index) item
    if answer.stopped then ⟨answer.state, done.reverse ++ answer.value :: rest, true⟩
    else reviseItems step element answer.state (index + 1) (answer.value :: done) rest

/-- Revises the key and the value of an entry of a map. -/
def revisePair (step : ChildStep σ) (key mapped : TypeReference) (state : σ) (index : Nat) :
    Json → Outcome σ Json
  | .array (first :: rest) =>
    let atKey := step state key (.mapKey index) first
    if atKey.stopped then ⟨atKey.state, .array (atKey.value :: rest), true⟩
    else
      match rest with
      | [] => ⟨atKey.state, .array [atKey.value], false⟩
      | second :: surplus =>
        let atValue := step atKey.state mapped (.mapValue index) second
        ⟨atValue.state, .array (atKey.value :: atValue.value :: surplus), atValue.stopped⟩
  | pair => ⟨state, pair, false⟩

/-- Revises the entries of a map from position `index` on. -/
def revisePairs (step : ChildStep σ) (key mapped : TypeReference) (state : σ) (index : Nat)
    (done : List Json) : List Json → Outcome σ (List Json)
  | [] => ⟨state, done.reverse, false⟩
  | pair :: rest =>
    let answer := revisePair step key mapped state index pair
    if answer.stopped then ⟨answer.state, done.reverse ++ answer.value :: rest, true⟩
    else revisePairs step key mapped answer.state (index + 1) (answer.value :: done) rest

/-- Revises the fields of an object. -/
def reviseFields (step : ChildStep σ) (state : σ) (entries : Entries) :
    List Field → Outcome σ Entries
  | [] => ⟨state, entries, false⟩
  | field :: rest =>
    match Entries.value? entries field.name with
    | Option.none => reviseFields step state entries rest
    | some value =>
      let answer := step state field.type (.field field.name) value
      let entries := Entries.assign field.name answer.value entries
      if answer.stopped then ⟨answer.state, entries, true⟩
      else reviseFields step answer.state entries rest

/-- Revises the children among the parts of `value`, in order. -/
def revise (step : ChildStep σ) (state : σ) (value : Json) : Parts → Outcome σ Json
  | .none => ⟨state, value, false⟩
  | .fields declared entries =>
    let answer := reviseFields step state entries declared
    ⟨answer.state, .object answer.value, answer.stopped⟩
  | .items element stored =>
    let answer := reviseItems step element state 0 [] stored
    ⟨answer.state, .array answer.value, answer.stopped⟩
  | .payload alternative index held =>
    let answer := step state alternative .payload held
    ⟨answer.state, .array [index, answer.value], answer.stopped⟩
  | .pointee target => step state target .pointee value
  | .pairs key mapped stored =>
    let answer := revisePairs step key mapped state 0 [] stored
    ⟨answer.state, .array answer.value, answer.stopped⟩

end Parts

namespace Registry

/-- Revises the values inside a value, at most `levels` steps deep. -/
def reviseWithin (registry : Registry) (step : Step σ) :
    Nat → σ → TypeReference → ValuePath → Json → Outcome σ Json
  | 0, state, _, _, value => ⟨state, value, false⟩
  | levels + 1, state, reference, path, value =>
    (registry.parts reference value).revise
      (fun state type segment child =>
        let here := path.push segment
        let answer := step state type here child
        if answer.stopped then answer
        else registry.reviseWithin step levels answer.state type here answer.value)
      state value

/-- How many steps deep a value can be, if steps make it deeper by at most `room` containers.  Each
step leads into a container, or from an owning pointer of some type to a value of a smaller type. -/
def walkDepth (registry : Registry) (reference : TypeReference) (value : Json) (room : Nat) : Nat :=
  (value.depth + room) * (max reference.depth registry.nesting + 1) + reference.depth + 1

/-- Revises every value inside a value of a type. -/
def revise (registry : Registry) (room : Nat) (step : Step σ) (state : σ)
    (reference : TypeReference) (value : Json) : Outcome σ Json :=
  registry.reviseWithin step (registry.walkDepth reference value room) state reference .root value

end Registry
end LiveSchema
