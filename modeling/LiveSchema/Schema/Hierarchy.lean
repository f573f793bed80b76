import LiveSchema.Schema.Registry

/-!
# Inheritance

Following base types from a record leads through its ancestors.  The functions here end on every
registry, also on one whose base types lead back to where they started.
-/

namespace LiveSchema
namespace Registry

/-- The base type of a type. -/
def baseOf? (registry : Registry) (handle : TypeHandle) : Option TypeHandle :=
  ((registry.get? handle).bind TypeDefinition.base).map TypeReference.handle

/-- Whether at most `steps` types, starting with `current` and following base types, contain
`parent`. -/
def reachesWithin (registry : Registry) (parent : TypeHandle) : Nat → Option TypeHandle → Bool
  | 0, _ => false
  | _, none => false
  | steps + 1, some handle =>
    handle = parent || registry.reachesWithin parent steps (registry.baseOf? handle)

/-- Whether `parent` is `child` or an ancestor of it.  A chain without repetition has no more types
than the registry has places, and one more for an empty place. -/
def isParentOf (registry : Registry) (parent child : TypeHandle) : Bool :=
  registry.reachesWithin parent (registry.definitions.size + 1) (some child)

/-- Whether `ancestor` is an ancestor of `descendant`, and another type. -/
def isStrictAncestor (registry : Registry) (ancestor descendant : TypeHandle) : Bool :=
  ancestor ≠ descendant && registry.isParentOf ancestor descendant

/-- The types met by following base types from `current`, added to `found`, until a type is met
again. -/
def ancestorsWithin (registry : Registry) (start : TypeHandle) :
    Nat → List TypeHandle → Option TypeHandle → List TypeHandle
  | 0, found, _ => found
  | _, found, none => found
  | steps + 1, found, some handle =>
    if handle = start ∨ handle ∈ found then found
    else registry.ancestorsWithin start steps (found ++ [handle]) (registry.baseOf? handle)

/-- The ancestors of a type, nearest first. -/
def ancestors (registry : Registry) (handle : TypeHandle) : List TypeHandle :=
  registry.ancestorsWithin handle (registry.definitions.size + 1) [] (registry.baseOf? handle)

/-- The types that derive from a type directly. -/
def children (registry : Registry) (handle : TypeHandle) : List TypeHandle :=
  registry.handles.filter fun candidate => registry.baseOf? candidate = some handle

/-- The types that derive from a type, directly or not. -/
def descendants (registry : Registry) (handle : TypeHandle) : List TypeHandle :=
  registry.handles.filter (registry.isStrictAncestor handle)

/-- A type and everything that derives from it. -/
def family (registry : Registry) (handle : TypeHandle) : List TypeHandle :=
  handle :: registry.descendants handle

/-! ## Effective fields -/

/-- A field together with the record that declares it. -/
structure OwnedField where
  owner : TypeHandle
  field : Field
deriving DecidableEq, Repr

/-- The own fields of a type; a type that is not a record has none. -/
def ownFields (registry : Registry) (handle : TypeHandle) : List Field :=
  match registry.record? handle with
  | some record => record.fields
  | none => []

/-- The fields of a record and its ancestors, the farthest ancestor first. -/
def ownedFields (registry : Registry) (handle : TypeHandle) : List OwnedField :=
  ((registry.ancestors handle).reverse ++ [handle]).flatMap fun owner =>
    (registry.ownFields owner).map (OwnedField.mk owner)

/-- The effective fields of a record: inherited ones first. -/
def allFields (registry : Registry) (handle : TypeHandle) : List Field :=
  (registry.ownedFields handle).map OwnedField.field

/-- The names of the effective fields of a record. -/
def allFieldNames (registry : Registry) (handle : TypeHandle) : List String :=
  (registry.allFields handle).map Field.name

/-! ## Bounds -/

/-- The greatest depth of a field type. -/
def nesting (registry : Registry) : Nat :=
  (registry.handles.flatMap fun handle =>
    (registry.ownFields handle).map fun field => field.type.depth).foldl max 0

/-- No default value has more containers inside one another: a chain of records without repetition
has at most one record for each live type, and between two of them lie at most as many containers as
a field type is deep. -/
def defaultDepth (registry : Registry) : Nat :=
  (registry.size + 1) * (registry.nesting + 1)

end Registry
end LiveSchema
