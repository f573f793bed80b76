import LiveSchema.Legality.Records

/-!
# Free names

A type name is free if no type has it.  A field name is free if neither the record nor an ancestor nor
a descendant declares it.  An enumerator name is free within its enumeration.
-/

namespace LiveSchema
namespace Legality

/-- Refuses a name that a type cannot get. -/
def checkTypeName (registry : Registry) (handle : TypeHandle) (name : String) :
    Except Error Unit := do
  checkIdentifier name
  match registry.resolve? name with
  | none => return ()
  | some existing =>
    if existing = handle then return ()
    else if (registry.builtin? existing).isSome then refuse (.builtinName name)
    else refuse (.typeExists name)

/-- The field of a record or of an ancestor of it that has a name, the record's own field `current`
apart. -/
def conflictingField? (registry : Registry) (record : TypeHandle) (current : Option String)
    (name : String) : Option Registry.OwnedField :=
  (registry.ownedFields record).find? fun owned =>
    owned.field.name = name && !(owned.owner = record && some owned.field.name = current)

/-- A record that derives from a record and declares a field of a name. -/
def conflictingDescendant? (registry : Registry) (record : TypeHandle) (name : String) :
    Option TypeHandle :=
  (registry.descendants record).find? fun descendant =>
    (registry.ownFields descendant).any fun field => field.name = name

/-- Refuses a name that a field of a record cannot get.  `current` is the field to be renamed, if it
is not a new one. -/
def checkFieldName (registry : Registry) (record : TypeHandle) (current : Option String)
    (name : String) : Except Error Unit := do
  let definition ← checkRecord registry record
  checkIdentifier name
  match conflictingField? registry record current name with
  | some owned =>
    if owned.owner = record then refuse (.fieldExists definition.name name)
    else refuse (.fieldInherited definition.name name (registry.nameOf owned.owner))
  | none =>
    match conflictingDescendant? registry record name with
    | some descendant =>
      refuse (.fieldInDescendant (registry.nameOf descendant) definition.name name)
    | none => return ()

/-- The enumerators of an enumeration and its definition; anything else is refused. -/
def checkEnumeration (registry : Registry) (handle : TypeHandle) :
    Except Error (TypeDefinition × Enumeration) := do
  let definition ← definitionOf registry handle
  match definition.enumeration? with
  | some enumeration => return (definition, enumeration)
  | none => refuse (.notEnumeration definition.name)

/-- Whether an enumerator other than the one at position `index` has a name. -/
def enumeratorTaken (enumeration : Enumeration) (index : Option Nat) (name : String) : Bool :=
  enumeration.enumerators.zipIdx.any fun (enumerator, position) =>
    some position ≠ index && enumerator.name = name

/-- Refuses a name that an enumerator cannot get.  `index` is the position of the enumerator to be
renamed, if it is not a new one. -/
def checkEnumeratorName (registry : Registry) (handle : TypeHandle) (index : Option Nat)
    (name : String) : Except Error Unit := do
  let (definition, enumeration) ← checkEnumeration registry handle
  checkIdentifier name
  if enumeratorTaken enumeration index name then
    refuse (.enumeratorExists definition.name name)

end Legality
end LiveSchema
