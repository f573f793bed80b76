import LiveSchema.Legality.Records

/-!
# Legal flags

Only the fields of classes may be private, and only private fields may have a getter or a setter.
Only scalar fields of structs that are kept as tables may be unique or indexed, and only structs may
be kept as tables.
-/

namespace LiveSchema
namespace Legality

/-- Why a field of a record of the given kind and flags cannot have a type and flags. -/
def flagsViolation? (registry : Registry) (variant : TypeVariant) (recordFlags : RecordFlags)
    (type : TypeReference) (flags : FieldFlags) : Option Violation :=
  if variant ≠ .class ∧ flags.isPrivate then some (.classOnly .privateAccess)
  else if variant ≠ .class ∧ flags.hasGetter then some (.classOnly .getter)
  else if variant ≠ .class ∧ flags.hasSetter then some (.classOnly .setter)
  else if flags.hasGetter ∧ !flags.isPrivate then some (.privateOnly .getter)
  else if flags.hasSetter ∧ !flags.isPrivate then some (.privateOnly .setter)
  else if flags.isUnique ∨ flags.isIndexed then
    if variant ≠ .struct ∨ !recordFlags.isTable then some .tableOnly
    else if !registry.satisfies type.handle .scalar then
      some (.scalarOnly (registry.render type))
    else none
  else none

/-- The flags of a record; a type that is not a record has none. -/
def flagsOf (registry : Registry) (record : TypeHandle) : RecordFlags :=
  match registry.record? record with
  | some own => own.flags
  | none => .empty

/-- Refuses a type and flags that a field of a record cannot have together. -/
def checkFieldFlags (registry : Registry) (record : TypeHandle) (type : TypeReference)
    (flags : FieldFlags) : Except Error Unit := do
  let definition ← checkRecord registry record
  match flagsViolation? registry definition.variant (flagsOf registry record) type flags with
  | some violation => refuse violation
  | none => return ()

/-- The first of the fields that would not be legal under the given flags of their record. -/
def fieldViolation? (registry : Registry) (variant : TypeVariant) (recordFlags : RecordFlags)
    (fields : List Field) : Option Violation :=
  fields.findSome? fun field =>
    (flagsViolation? registry variant recordFlags field.type field.flags).map
      (.inField field.name)

/-- Refuses flags that a record cannot have with its present fields. -/
def checkRecordFlags (registry : Registry) (record : TypeHandle) (flags : RecordFlags) :
    Except Error Unit := do
  let definition ← checkRecord registry record
  if flags.isTable && definition.variant ≠ .struct then refuse .tableOfClass
  match fieldViolation? registry definition.variant flags (registry.ownFields record) with
  | some violation => refuse violation
  | none => return ()

end Legality
end LiveSchema
