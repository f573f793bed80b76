import LiveSchema.Legality.Arguments
import LiveSchema.Legality.Identifier
import LiveSchema.Mutation.Basic
import LiveSchema.Value.Shape

/-!
# Changes of stores

Adding stores, and adding, setting and deleting their roots.  A root starts with the default value of
its type and only takes values of the shape that its type calls for.
-/

namespace LiveSchema
namespace Content

/-- The store of a name. -/
def checkStore (content : Content) (store : String) : Except Error Store :=
  match content.stores.get? store with
  | some kept => .ok kept
  | none => refuse (.noStore store)

/-- The root of a name in a store. -/
def checkRoot (content : Content) (store root : String) : Except Error (Store × Root) := do
  let kept ← content.checkStore store
  match NameMap.get? kept root with
  | some value => return (kept, value)
  | none => refuse (.noRoot store root)

/-- Adds an empty store. -/
def addStore (content : Content) (store : String) : Except Error Change := do
  Legality.checkIdentifier store
  if content.stores.contains store then refuse (.storeExists store)
  return {
    content := { content with stores := content.stores.insert store NameMap.empty }
    params := [("store", .string store)] }

/-- Adds a root with the default value of its type. -/
def addRoot (content : Content) (store root : String) (type : TypeReference) :
    Except Error Change := do
  let kept ← content.checkStore store
  Legality.checkIdentifier root
  if NameMap.contains kept root then refuse (.rootExists store root)
  Legality.checkReference content.registry type
  Legality.checkDefaultSize content.registry type
  let added : Root := ⟨type, content.registry.defaultValue type⟩
  return {
    content := { content with stores := content.stores.insert store (NameMap.insert kept root added) }
    params := [("store", .string store), ("root", .string root),
      ("type", .string (content.registry.render type))] }

/-- Sets the value of a root. -/
def setRootValue (content : Content) (store root : String) (value : Json) :
    Except Error Change := do
  let (kept, previous) ← content.checkRoot store root
  if !content.registry.conforms previous.type value then
    refuse (.misfit (content.registry.render previous.type))
  return {
    content := { content with
      stores := content.stores.insert store (NameMap.insert kept root ⟨previous.type, value⟩) }
    params := [("store", .string store), ("root", .string root), ("from", previous.value),
      ("to", value)] }

/-- Deletes a root. -/
def deleteRoot (content : Content) (store root : String) : Except Error Change := do
  let (kept, removed) ← content.checkRoot store root
  return {
    content := { content with stores := content.stores.insert store (NameMap.erase kept root) }
    params := [("store", .string store), ("root", .string root),
      ("type", .string (content.registry.render removed.type)), ("value", removed.value)] }

end Content
end LiveSchema
