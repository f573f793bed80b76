import LiveSchema.Json.Basic

/-!
# Values as documents spell them

A document may repeat a key, and what a reader passes over may spell something that no value is: a
number beyond the floating-point range, half of a character, or too many containers inside one
another.  A draft keeps all of this.  `Draft.toJson?` makes a value of it, if every part of it is one.
-/

namespace LiveSchema

/-- A value as a document spells it. -/
inductive Draft where
  | null
  | bool (value : Bool)
  | number (value : Number)
  | string (value : String)
  | array (items : List Draft)
  | object (entries : List (String × Draft))
  /-- Well formed, but no value. -/
  | unreadable
deriving Inhabited, Repr

namespace Draft

mutual

/-- The value that a draft spells.  A repeated key keeps its first place and its last value. -/
def toJson? : Draft → Option Json
  | .null => some .null
  | .bool value => some (.bool value)
  | .number value => some (.number value)
  | .string value => some (.string value)
  | .array items => (itemsToJson? [] items).map .array
  | .object entries =>
    (entriesToJson? [] entries).map fun entries => .object (Entries.merge entries)
  | .unreadable => none

/-- The values of items; `done` holds those before, last first. -/
def itemsToJson? (done : List Json) : List Draft → Option (List Json)
  | [] => some done.reverse
  | item :: rest =>
    match item.toJson? with
    | some value => itemsToJson? (value :: done) rest
    | none => none

/-- The values of entries; `done` holds those before, last first. -/
def entriesToJson? (done : Entries) : List (String × Draft) → Option Entries
  | [] => some done.reverse
  | (key, draft) :: rest =>
    match draft.toJson? with
    | some value => entriesToJson? ((key, value) :: done) rest
    | none => none

end

/-- A draft that lies inside as many containers as there may be is no value. -/
def within (depth : Nat) (draft : Draft) : Draft :=
  if depth = 0 then .unreadable else draft

end Draft
end LiveSchema
