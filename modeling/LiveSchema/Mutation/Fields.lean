import LiveSchema.Legality.Flags
import LiveSchema.Legality.Names
import LiveSchema.Mutation.Basic
import LiveSchema.Mutation.Migration
import LiveSchema.Mutation.Types

/-!
# Changes of fields

Adding, renaming, retyping, reordering, moving and deleting the fields of records.  The objects of the
record and of all records that derive from it follow each change.
-/

namespace LiveSchema
namespace Content

/-- The position and the definition of an own field of a record. -/
def checkOwnField (content : Content) (record : TypeHandle) (name : String) :
    Except Error (Nat × Field) := do
  let definition ← Legality.checkRecord content.registry record
  let fields := content.registry.ownFields record
  match fields.findIdx? fun field => field.name = name with
  | none => refuse (.noField definition.name name)
  | some index =>
    match fields[index]? with
    | none => refuse (.noField definition.name name)
    | some field => return (index, field)

/-- How many fields a record, its ancestors and its descendants declare. -/
def fieldCount (registry : Registry) (record : TypeHandle) : Nat :=
  (registry.ownedFields record).length +
    ((registry.descendants record).flatMap registry.ownFields).length

/-- A name for a new field of a record: the word `field` and the least positive number that makes it
free. -/
def freshFieldName (registry : Registry) (record : TypeHandle) : String :=
  Registry.freshName
    (fun name => (Legality.checkFieldName registry record none name).toBool = false) "field" 1
    (fieldCount registry record + 1)

/-- Adds a field of type `void` to a record. -/
def addField (content : Content) (record : TypeHandle) : Except Error Change := do
  let definition ← Legality.checkRecord content.registry record
  let name := freshFieldName content.registry record
  let registry := content.registry.modifyFields record fun fields =>
    fields ++ [⟨name, .plain Registry.void, .empty, ""⟩]
  let (tally, stores) := content.stores.conformRecords registry record
  return {
    content := ⟨registry, stores⟩
    params := [("record", .string definition.name), ("field", .string name),
      ("type", .string Builtin.void.name), ("migrated", .ofNat tally.count)]
    answer := .name name }

/-- Renames a field. -/
def setFieldName (content : Content) (record : TypeHandle) (field name : String) :
    Except Error Change := do
  let (index, _) ← content.checkOwnField record field
  Legality.checkFieldName content.registry record (some field) name
  let registry := content.registry.modifyFields record fun fields =>
    fields.modify index fun own => { own with name := name }
  let (tally, stores) := content.stores.renameField registry record field name
  return {
    content := ⟨registry, stores⟩
    params := [("record", .string (registry.nameOf record)), ("from", .string field),
      ("to", .string name), ("migrated", .ofNat tally.count)] }

/-- Gives a field another type and converts its stored values. -/
def setFieldType (content : Content) (record : TypeHandle) (field : String)
    (type : TypeReference) : Except Error Change := do
  let (index, own) ← content.checkOwnField record field
  Legality.checkFieldType content.registry record (some type)
  Legality.checkFieldFlags content.registry record type own.flags
  let registry := content.registry.modifyFields record fun fields =>
    fields.modify index fun own => { own with type := type }
  let result := registry.classify own.type type
  let (tally, stores) := content.stores.convertField registry record own.name own.type type
  return {
    content := ⟨registry, stores⟩
    params := [("record", .string (registry.nameOf record)), ("field", .string field),
      ("from", .string (registry.render own.type)), ("to", .string (registry.render type)),
      ("result", .string result.name), ("migrated", .ofNat tally.count),
      ("backup", tally.backupJson)]
    answer := .conversion result }

/-- What giving a field another type would do to its stored values. -/
def classifyFieldTypeChange (content : Content) (record : TypeHandle) (field : String)
    (type : TypeReference) : Except Error ConversionResult := do
  let (_, own) ← content.checkOwnField record field
  return content.registry.classify own.type type

/-- Sets the flags of a field. -/
def setFieldFlags (content : Content) (record : TypeHandle) (field : String) (flags : FieldFlags) :
    Except Error Change := do
  let (index, own) ← content.checkOwnField record field
  Legality.checkFieldFlags content.registry record own.type flags
  return {
    content := content.withRegistry (content.registry.modifyFields record fun fields =>
      fields.modify index fun own => { own with flags := flags })
    params := [("record", .string (content.registry.nameOf record)), ("field", .string field),
      ("flags", .string flags.render)] }

/-- The list with the elements at two positions exchanged. -/
def exchange {α : Type u} (list : List α) (first second : Nat) : List α :=
  match list[first]?, list[second]? with
  | some a, some b => (list.set first b).set second a
  | _, _ => list

/-- Exchanges two own fields of a record. -/
def swapFields (content : Content) (record : TypeHandle) (first second : Nat) :
    Except Error Change := do
  let definition ← Legality.checkRecord content.registry record
  let count := (content.registry.ownFields record).length
  match [first, second].find? fun position => count ≤ position with
  | some position => refuse (.noFieldAt definition.name position)
  | none =>
    let registry := content.registry.modifyFields record fun fields =>
      exchange fields first second
    let (tally, stores) := content.stores.conformRecords registry record
    return {
      content := ⟨registry, stores⟩
      params := [("record", .string definition.name), ("first", .ofNat first),
        ("second", .ofNat second), ("migrated", .ofNat tally.count)] }

/-- Moves a field down to a record that derives from the one that declares it, to the front of its
own fields.  Objects that do not derive from `target` lose the value. -/
def moveField (content : Content) (source : TypeHandle) (field : String) (target : TypeHandle) :
    Except Error Change := do
  let (index, own) ← content.checkOwnField source field
  let definition ← Legality.checkRecord content.registry target
  let registry := content.registry
  if !registry.isStrictAncestor source target then
    refuse (.notDerived definition.name (registry.nameOf source))
  if (registry.ownFields target).any fun declared => declared.name = field then
    refuse (.fieldDeclared definition.name field)
  Legality.checkFieldFlags registry target own.type own.flags
  let registry := (registry.modifyFields source fun fields => fields.eraseIdx index).modifyFields
    target fun fields => own :: fields
  let (tally, stores) := content.stores.conformRecords registry source
  return {
    content := ⟨registry, stores⟩
    params := [("from", .string (registry.nameOf source)), ("field", .string field),
      ("to", .string definition.name), ("migrated", .ofNat tally.count),
      ("backup", tally.backupJson)] }

/-- Removes one level of inheritance: the fields of the base type are copied to the front of the
record, which then derives from the base type of its base type. -/
def flattenBase (content : Content) (record : TypeHandle) : Except Error Change := do
  let definition ← Legality.checkRecord content.registry record
  let registry := content.registry
  match registry.baseOf? record with
  | none => refuse (.noBase definition.name)
  | some base =>
    let baseDefinition ← Legality.definitionOf registry base
    let grandparent := baseDefinition.base
    Legality.checkBase registry record grandparent
    match baseDefinition.record? with
    | none => throw (.invariant (.notRecord baseDefinition.name))
    | some ofBase =>
      ofBase.fields.forM fun field =>
        Legality.checkFieldFlags registry record field.type field.flags
      let changed := (registry.modifyFields record fun own => ofBase.fields ++ own).setBase record
        grandparent
      let (tally, stores) := content.stores.conformRecords changed record
      return {
        content := ⟨changed, stores⟩
        params := [("record", .string definition.name), ("base", .string baseDefinition.name),
          ("new_base", referenceJson registry grandparent),
          ("fields", .array (ofBase.fields.map fun field => .string field.name)),
          ("migrated", .ofNat tally.count)] }

/-- Deletes a field and its stored values. -/
def deleteField (content : Content) (record : TypeHandle) (field : String) :
    Except Error Change := do
  let (index, removed) ← content.checkOwnField record field
  let registry := content.registry.modifyFields record fun fields => fields.eraseIdx index
  let (tally, stores) := content.stores.conformRecords registry record
  return {
    content := ⟨registry, stores⟩
    params := [("record", .string (registry.nameOf record)), ("field", .string removed.name),
      ("type", .string (registry.render removed.type)), ("flags", .string removed.flags.render),
      ("description", .string removed.description), ("migrated", .ofNat tally.count),
      ("backup", tally.backupJson)] }

end Content
end LiveSchema
