import LiveSchema.Store
import LiveSchema.TypeText.Printer

/-!
# Usages of types

A type is used by the fields of other types, as a base type, and by stored data.  The first two
prevent its deletion; stored data is deleted along with the type.
-/

namespace LiveSchema

/-- A place where a type is used. -/
inductive Usage where
  /-- In the type of a field; the paths lead to the occurrences among its arguments. -/
  | field (record : TypeHandle) (field : String) (paths : List (List Nat))
  /-- In the base type of another type. -/
  | base (child : TypeHandle)
  /-- In the roots of a store. -/
  | data (store : String) (roots : List String)
deriving DecidableEq, Repr

namespace Usage

/-- Whether a usage prevents the deletion of the type. -/
def isBlocking : Usage → Bool
  | .data _ _ => false
  | _ => true

end Usage

namespace Content

/-- The usages of a type by the definition of another type: first its fields, then its base type. -/
def usagesBy (content : Content) (handle other : TypeHandle) : List Usage :=
  let ofFields := (content.registry.ownFields other).filterMap fun field =>
    let paths := field.type.occurrences handle
    if paths = [] then none else some (.field other field.name paths)
  let base := (content.registry.get? other).bind TypeDefinition.base
  ofFields ++ if base.any fun base => base.mentions handle then [.base other] else []

/-- All usages of a type.  A type that refers to itself does not use itself. -/
def usages (content : Content) (handle : TypeHandle) : List Usage :=
  let others := content.registry.userTypes.filter fun other => other ≠ handle
  others.flatMap (content.usagesBy handle) ++
    content.stores.entries.filterMap fun (name, store) =>
      let roots := store.mentions content.registry handle
      if roots = [] then none else some (.data name roots)

/-- A usage in words. -/
def describeUsage (content : Content) : Usage → String
  | .field record field _ =>
    let type := ((content.registry.record? record).bind fun own => own.field? field).map
      fun own => content.registry.render own.type
    "  used by field " ++ content.registry.nameOf record ++ "." ++ field ++ " of type " ++
      type.getD ""
  | .base child => "  is the base type of '" ++ content.registry.nameOf child ++ "'"
  | .data store roots =>
    "  has data in store '" ++ store ++ "' (roots: " ++ ", ".intercalate roots ++ ")"

end Content
end LiveSchema
