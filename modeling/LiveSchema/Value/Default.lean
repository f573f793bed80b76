import LiveSchema.Json.Basic
import LiveSchema.Schema.Hierarchy
import LiveSchema.Schema.Unvisited

/-!
# Default values

Every type has a default value: zero, empty, or built from the defaults of its parts.  A record that
holds itself by value has none.  `Registry.defaultSize` tells how many values the default consists
of without building it, up to the greatest number of 64 bits.
-/

namespace LiveSchema
namespace Registry

theorem mem_handles {registry : Registry} {handle : TypeHandle} :
    handle ∈ registry.handles ↔ registry.isLive handle = true := by
  simp only [handles, List.mem_filter, List.mem_map, List.mem_range]
  refine ⟨fun h => h.2, fun live => ⟨⟨handle.index, ?_, rfl⟩, live⟩⟩
  simp only [isLive, get?] at live
  split at live
  next found => exact (Array.getElem?_eq_some_iff.mp found).1
  next => exact absurd live (by decide)

theorem isLive_of_get? {registry : Registry} {handle : TypeHandle} {definition : TypeDefinition}
    (h : registry.get? handle = some definition) : registry.isLive handle = true := by
  simp [isLive, h]

/-! ## The default value -/

/-- The zero of the components of a vector. -/
def zeroOf : VectorComponent → Json
  | .bool => .bool false
  | .int | .unsigned => .ofNat 0
  | .double | .float => .ofFloat .zero

/-- The default of a built-in type that does not depend on its arguments. -/
def simpleDefault : Builtin → Json
  | .floating _ => .ofFloat .zero
  | .integral _ | .flags => .ofNat 0
  | .bool => .bool false
  | .string => .string ""
  | .bytes | .list | .map | .array | .variant => .array []
  | .void | .json | .ref | .own => .null
  | .vector component size => .array (List.replicate size.count (zeroOf component))

mutual

/-- The default value of a type, inside records that are not complete yet.  There is none if one of
these records is met again. -/
def defaultWithin? (registry : Registry) (within : List TypeHandle) (reference : TypeReference) :
    Option Json :=
  match found : registry.get? reference.handle with
  | none => some .null
  | some definition =>
    match definition.body with
    | .enumeration enumeration => some (.ofInt enumeration.defaultValue.toInt)
    | .record _ =>
      if met : reference.handle ∈ within then none
      else
        have := unvisited_cons_lt (mem_handles.mpr (isLive_of_get? found)) met
        (registry.defaultEntries? (reference.handle :: within) []
          (registry.allFields reference.handle)).map .object
    | .builtin .array => do
      let element ← match inner : reference.typeArgument? 0 with
        | some element =>
          have := TypeReference.sizeOf_lt_of_typeArgument? inner
          registry.defaultWithin? within element
        | none => some .null
      return .array (List.replicate ((reference.sizeArgument? 1).getD 0).toNat element)
    | .builtin .variant => do
      let payload ← match inner : reference.typeArgument? 0 with
        | some first =>
          have := TypeReference.sizeOf_lt_of_typeArgument? inner
          registry.defaultWithin? within first
        | none => some .null
      return .array [.ofNat 0, payload]
    | .builtin builtin => some (simpleDefault builtin)
termination_by (unvisited registry.handles within, sizeOf reference)

/-- The entries of fields with their default values, behind the entries `done`. -/
def defaultEntries? (registry : Registry) (within : List TypeHandle) (done : Entries) :
    List Field → Option Entries
  | [] => some done
  | field :: rest => do
    have : sizeOf field.type < sizeOf field := by
      cases field
      simp only [Field.mk.sizeOf_spec]
      omega
    let value ← registry.defaultWithin? within field.type
    registry.defaultEntries? within (Entries.assign field.name value done) rest
termination_by fields => (unvisited registry.handles within, sizeOf fields)

end

/-- The default value of a type, if it has one. -/
def default? (registry : Registry) (reference : TypeReference) : Option Json :=
  registry.defaultWithin? [] reference

/-- The default value of a type; a type without one stands for null. -/
def defaultValue (registry : Registry) (reference : TypeReference) : Json :=
  (registry.default? reference).getD .null

/-! ## Its size -/

/-- The greatest size that is told apart. -/
def sizeLimit : Nat := 0xFFFFFFFFFFFFFFFF

/-- The sum of two sizes, up to the limit. -/
def addSizes (m n : Nat) : Nat :=
  min (m + n) sizeLimit

/-- The product of two sizes, up to the limit. -/
def mulSizes (m n : Nat) : Nat :=
  min (m * n) sizeLimit

mutual

/-- How many values the default of a type consists of, inside records that are not complete yet.  A
record that is met again counts as unbounded. -/
def sizeWithin (registry : Registry) (within : List TypeHandle) (reference : TypeReference) : Nat :=
  match found : registry.get? reference.handle with
  | none => 1
  | some definition =>
    match definition.body with
    | .enumeration _ => 1
    | .record _ =>
      if met : reference.handle ∈ within then sizeLimit
      else
        have := unvisited_cons_lt (mem_handles.mpr (isLive_of_get? found)) met
        registry.sizeOfFields (reference.handle :: within) 1
          (registry.allFields reference.handle)
    | .builtin .array =>
      let count := ((reference.sizeArgument? 1).getD 0).toNat
      let element := match inner : reference.typeArgument? 0 with
        | some element =>
          have := TypeReference.sizeOf_lt_of_typeArgument? inner
          registry.sizeWithin within element
        | none => 1
      addSizes (mulSizes count element) 1
    | .builtin .variant =>
      match inner : reference.typeArgument? 0 with
      | some first =>
        have := TypeReference.sizeOf_lt_of_typeArgument? inner
        addSizes (registry.sizeWithin within first) 1
      | none => 1
    | .builtin (.vector _ size) => 1 + size.count
    | .builtin _ => 1
termination_by (unvisited registry.handles within, sizeOf reference)

/-- The sizes of the defaults of fields, added to `total`. -/
def sizeOfFields (registry : Registry) (within : List TypeHandle) (total : Nat) :
    List Field → Nat
  | [] => total
  | field :: rest =>
    have : sizeOf field.type < sizeOf field := by
      cases field
      simp only [Field.mk.sizeOf_spec]
      omega
    registry.sizeOfFields within (addSizes total (registry.sizeWithin within field.type)) rest
termination_by fields => (unvisited registry.handles within, sizeOf fields)

end

/-- How many values the default of a type consists of, up to the limit. -/
def defaultSize (registry : Registry) (reference : TypeReference) : Nat :=
  registry.sizeWithin [] reference

end Registry
end LiveSchema
