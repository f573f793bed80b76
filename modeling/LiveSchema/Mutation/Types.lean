import LiveSchema.Legality.Flags
import LiveSchema.Legality.Names
import LiveSchema.Mutation.Basic
import LiveSchema.Mutation.Migration
import LiveSchema.Schema.Descriptor
import LiveSchema.Usage

/-!
# Changes of types

Declaring, renaming and deleting types, and setting the base type and the table flag of records.
-/

namespace LiveSchema
namespace Content

/-- The text of a type reference, or null if there is none. -/
def referenceJson (registry : Registry) (reference : Option TypeReference) : Json :=
  .ofText? (reference.map registry.render)

/-- Refuses a built-in type. -/
def checkUserType (content : Content) (handle : TypeHandle) : Except Error TypeDefinition := do
  let definition ← Legality.definitionOf content.registry handle
  if definition.isBuiltin then refuse (.builtinType definition.name)
  return definition

/-- Declares a type with a fresh name that starts with `base`. -/
def addType (content : Content) (base : String) (make : String → TypeDefinition) :
    Except Error Change :=
  let registry := content.registry
  let name := registry.freshTypeName base
  if (registry.resolve? name).isSome then .error (.invariant (.nameTaken name))
  else .ok {
    content := content.withRegistry (registry.declare (make name))
    params := [("name", .string name)]
    answer := .type registry.nextHandle }

/-- Renames a type.  Stored values refer to it by handle and stay as they are. -/
def setTypeName (content : Content) (handle : TypeHandle) (name : String) :
    Except Error Change := do
  let definition ← content.checkUserType handle
  Legality.checkTypeName content.registry handle name
  let registry := content.registry.rename handle name
  let roots := (content.stores.values.flatMap fun store => store.mentions registry handle).length
  return {
    content := content.withRegistry registry
    params := [("from", .string definition.name), ("to", .string name), ("roots", .ofNat roots)] }

/-- Sets or removes the base type of a record. -/
def setRecordBaseType (content : Content) (record : TypeHandle) (base : Option TypeReference) :
    Except Error Change := do
  Legality.checkBase content.registry record base
  let previous := (content.registry.get? record).bind TypeDefinition.base
  let registry := content.registry.setBase record base
  let (tally, stores) := content.stores.conformRecords registry record
  return {
    content := ⟨registry, stores⟩
    params := [("record", .string (registry.nameOf record)),
      ("from", referenceJson content.registry previous), ("to", referenceJson content.registry base),
      ("migrated", .ofNat tally.count), ("backup", tally.backupJson)] }

/-- Makes a struct a table, or no table. -/
def setRecordTable (content : Content) (record : TypeHandle) (enabled : Bool) :
    Except Error Change := do
  let definition ← Legality.checkRecord content.registry record
  let flags := (Legality.flagsOf content.registry record).withTable enabled
  Legality.checkRecordFlags content.registry record flags
  return {
    content := content.withRegistry
      (content.registry.modifyRecord record fun own => { own with flags := flags })
    params := [("record", .string definition.name), ("table", .bool enabled)] }

/-- A root that was deleted along with its type, as the change log keeps it. -/
def removedRootJson (registry : Registry) (store root : String) (kept : Root) : Json :=
  .object [("store", .string store), ("root", .string root),
    ("type", .string (registry.render kept.type)), ("value", kept.value)]

/-- Removes roots of stores; the removed roots are listed in the order in which they are named. -/
def removeRoots (registry : Registry) (stores : Stores) :
    List (String × String) → List Json × Stores
  | [] => ([], stores)
  | (store, root) :: rest =>
    match stores.get? store with
    | none => removeRoots registry stores rest
    | some kept =>
      match NameMap.get? kept root with
      | none => removeRoots registry stores rest
      | some removed =>
        let (further, stores) :=
          removeRoots registry (stores.insert store (NameMap.erase kept root)) rest
        (removedRootJson registry store root removed :: further, stores)

/-- The roots that hold data of a type, by store and name. -/
def dataRoots (usages : List Usage) : List (String × String) :=
  usages.flatMap fun
    | .data store roots => roots.map fun root => (store, root)
    | _ => []

/-- Deletes a type that no other type uses, along with the roots that hold its data. -/
def deleteType (content : Content) (handle : TypeHandle) : Except Error Change := do
  let definition ← content.checkUserType handle
  let usages := content.usages handle
  let blocking := (usages.filter Usage.isBlocking).map content.describeUsage
  if blocking ≠ [] then throw (.usageConflict definition.name blocking)
  let (removed, stores) := removeRoots content.registry content.stores (dataRoots usages)
  return {
    content := ⟨content.registry.remove handle, stores⟩
    params := [("name", .string definition.name), ("variant", .string definition.variant.name),
      ("definition", (content.registry.describeDefinition definition).toJson),
      ("roots", .array removed)] }

end Content
end LiveSchema
