import LiveSchema.Json.Basic

/-!
# Paths into values

A path leads from a value to one inside it, step by step.  The text of a path names its steps one
after the other, as in `.inventory[2].value*.name`.
-/

namespace LiveSchema

/-- One step into a value. -/
inductive PathSegment where
  /-- The field of an object. -/
  | field (name : String)
  /-- An element of a list or array. -/
  | index (index : Nat)
  /-- What a variant holds. -/
  | payload
  /-- What an owning pointer points at; it is stored in place of the pointer. -/
  | pointee
  /-- The key of an entry of a map. -/
  | mapKey (index : Nat)
  /-- The value of an entry of a map. -/
  | mapValue (index : Nat)
deriving DecidableEq, Repr

namespace PathSegment

/-- The text of a step. -/
def render : PathSegment → String
  | field name => "." ++ name
  | index position => "[" ++ Nat.repr position ++ "]"
  | payload => ".value"
  | pointee => "*"
  | mapKey position => "[" ++ Nat.repr position ++ "].key"
  | mapValue position => "[" ++ Nat.repr position ++ "].value"

/-- The value that one step leads to. -/
def child? (value : Json) : PathSegment → Option Json
  | field name => value.object?.bind fun entries => Entries.value? entries name
  | index position => value.array?.bind fun items => items[position]?
  | payload => value.array?.bind fun items => items[1]?
  | pointee => if value.isNull then none else some value
  | mapKey position =>
    (value.array?.bind fun pairs => pairs[position]?).bind fun pair =>
      pair.array?.bind fun items => items[0]?
  | mapValue position =>
    (value.array?.bind fun pairs => pairs[position]?).bind fun pair =>
      pair.array?.bind fun items => items[1]?

end PathSegment

/-- The steps from a value to one inside it. -/
structure ValuePath where
  segments : List PathSegment
deriving DecidableEq, Repr

namespace ValuePath

/-- The path to the value itself. -/
def root : ValuePath := ⟨[]⟩

/-- The path with one more step. -/
def push (path : ValuePath) (segment : PathSegment) : ValuePath :=
  ⟨path.segments ++ [segment]⟩

/-- The text of a path. -/
def render (path : ValuePath) : String :=
  "".intercalate (path.segments.map PathSegment.render)

/-- The value that a path leads to. -/
def resolve? (path : ValuePath) (value : Json) : Option Json :=
  path.segments.foldlM PathSegment.child? value

end ValuePath
end LiveSchema
