import LiveSchema.Schema.Emission
import LiveSchema.Store
import LiveSchema.TypeText.Printer
import LiveSchema.Value.Description

/-!
# Listings

A listing shows a content to people: the user types in the order in which code for them has to be
emitted, each with its fields or enumerators, and then the roots of every store with their values.
-/

namespace LiveSchema

/-- The indentation of what belongs to a type or a store. -/
def listingIndent : String := "    "

namespace Registry

/-- The first line of a type. -/
def listHead (registry : Registry) (definition : TypeDefinition) : String :=
  let base := match definition.base with
    | some base => " : " ++ registry.render base
    | none => ""
  definition.variant.display ++ " " ++ definition.name ++ base

/-- The lines of what a type consists of. -/
def listBody (registry : Registry) (definition : TypeDefinition) : List String :=
  match definition.body with
  | .builtin _ => []
  | .record record =>
    record.fields.map fun field =>
      listingIndent ++ registry.render field.type ++ " " ++ field.name ++ ";"
  | .enumeration enumeration =>
    (enumeration.enumerators.zip enumeration.values).map fun (enumerator, value) =>
      listingIndent ++ enumerator.name ++ " = " ++ Int.repr value.toInt ++ ","

/-- The lines of a type. -/
def listType (registry : Registry) (handle : TypeHandle) : List String :=
  match registry.get? handle with
  | some definition => registry.listHead definition :: registry.listBody definition
  | none => []

end Registry

namespace Store

/-- The lines of a store. -/
def list (store : Store) (registry : Registry) (name : String) : List String :=
  ("store " ++ name ++ " (" ++ Nat.repr (NameMap.size store) ++ " roots)") ::
    store.entries.map fun (root, kept) =>
      listingIndent ++ root ++ " = " ++ registry.describe kept.type kept.value

end Store

namespace Content

/-- The lines of a content. -/
def listing (content : Content) : List String :=
  content.registry.emissionOrder.flatMap content.registry.listType ++
    content.stores.entries.flatMap fun (name, store) => store.list content.registry name

end Content
end LiveSchema
