import LiveSchema.Legality.Names
import LiveSchema.Mutation.Basic
import LiveSchema.Mutation.Migration
import LiveSchema.Schema.Descriptor

/-!
# Changes of enumerations

Adding, renaming, renumbering and deleting enumerators.  Stored values keep naming the same
enumerators, so they are renumbered along with them.
-/

namespace LiveSchema
namespace Content

/-- The definition of an enumeration that has an enumerator at a position, and the enumerator. -/
def checkEnumerator (content : Content) (handle : TypeHandle) (index : Nat) :
    Except Error (TypeDefinition × Enumeration × Enumerator) := do
  let (definition, enumeration) ← Legality.checkEnumeration content.registry handle
  match enumeration.enumerators[index]? with
  | some enumerator => return (definition, enumeration, enumerator)
  | none => refuse (.noEnumeratorAt definition.name index)

/-- A name for a new enumerator: the word `Value` and the least positive number that makes it
free. -/
def freshEnumeratorName (registry : Registry) (handle : TypeHandle) (enumeration : Enumeration) :
    String :=
  Registry.freshName
    (fun name => (Legality.checkEnumeratorName registry handle none name).toBool = false) "Value" 1
    (enumeration.enumerators.length + 1)

/-- Adds an enumerator without a value of its own. -/
def addEnumerator (content : Content) (handle : TypeHandle) : Except Error Change := do
  let (definition, enumeration) ← Legality.checkEnumeration content.registry handle
  let name := freshEnumeratorName content.registry handle enumeration
  return {
    content := content.withRegistry
      (content.registry.modifyEnumerators handle fun enumerators =>
        enumerators ++ [⟨name, none, ""⟩])
    params := [("enum", .string definition.name), ("enumerator", .string name)]
    answer := .name name }

/-- Renames an enumerator. -/
def setEnumeratorName (content : Content) (handle : TypeHandle) (index : Nat) (name : String) :
    Except Error Change := do
  let (definition, _, enumerator) ← content.checkEnumerator handle index
  Legality.checkEnumeratorName content.registry handle (some index) name
  return {
    content := content.withRegistry
      (content.registry.modifyEnumerators handle fun enumerators =>
        enumerators.modify index fun own => { own with name := name })
    params := [("enum", .string definition.name), ("from", .string enumerator.name),
      ("to", .string name)] }

/-- The effective value at a position. -/
def valueAt (values : List Int64) (index : Nat) : Json :=
  .ofInt (values[index]?.getD 0).toInt

/-- Sets or removes the value of an enumerator. -/
def setEnumeratorValue (content : Content) (handle : TypeHandle) (index : Nat)
    (value : Option Int64) : Except Error Change := do
  let (definition, enumeration, _) ← content.checkEnumerator handle index
  let changed : Enumeration :=
    ⟨enumeration.enumerators.modify index fun own => { own with value := value }⟩
  let registry := content.registry.modifyEnumerators handle fun _ => changed.enumerators
  let (migrated, stores) := content.stores.renumber registry handle
    (enumeration.values.zip changed.values) none
  return {
    content := ⟨registry, stores⟩
    params := [("enum", .string definition.name), ("index", .ofNat index),
      ("from", valueAt enumeration.values index), ("to", valueAt changed.values index),
      ("migrated", .ofNat migrated)] }

/-- Deletes an enumerator.  Stored values that name it get the new default value. -/
def deleteEnumerator (content : Content) (handle : TypeHandle) (index : Nat) :
    Except Error Change := do
  let (definition, enumeration, removed) ← content.checkEnumerator handle index
  let changed : Enumeration := ⟨enumeration.enumerators.eraseIdx index⟩
  let registry := content.registry.modifyEnumerators handle fun _ => changed.enumerators
  let old := enumeration.values[index]?.getD 0
  let (migrated, stores) := content.stores.renumber registry handle
    ((enumeration.values.eraseIdx index).zip changed.values) (some (old, changed.defaultValue))
  return {
    content := ⟨registry, stores⟩
    params := [("enum", .string definition.name), ("enumerator", removed.toJson),
      ("value", valueAt enumeration.values index), ("migrated", .ofNat migrated)] }

end Content
end LiveSchema
