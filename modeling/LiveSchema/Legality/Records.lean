import LiveSchema.Legality.Arguments
import LiveSchema.Legality.Identifier
import LiveSchema.Schema.Containment

/-!
# Legal records

A record may derive from a record of its own kind, as long as it becomes neither its own ancestor nor
a part of itself and hides no inherited field.  A field may have any legal type that does not hold the
record, or a record that derives from it, by value.
-/

namespace LiveSchema
namespace Legality

/-- The record behind a handle and its definition; anything else is refused. -/
def checkRecord (registry : Registry) (handle : TypeHandle) : Except Error TypeDefinition := do
  let definition ← definitionOf registry handle
  if definition.isRecord then return definition
  else refuse (.notRecord definition.name definition.variant)

/-! ## Base types -/

/-- The last of several inherited fields of a name. -/
def inheritedField? (inherited : List Registry.OwnedField) (name : String) :
    Option Registry.OwnedField :=
  inherited.reverse.find? fun owned => owned.field.name = name

/-- The fields of a record and of those that derive from it that would hide fields of `base`. -/
def shadowings (registry : Registry) (record base : TypeHandle) : List Shadowing :=
  let inherited := registry.ownedFields base
  (registry.family record).flatMap fun owner =>
    (registry.ownFields owner).filterMap fun field =>
      (inheritedField? inherited field.name).map fun owned =>
        ⟨registry.nameOf owner, field.name, registry.nameOf owned.owner⟩

/-- Refuses a base type that a record cannot have. -/
def checkBase (registry : Registry) (record : TypeHandle) (candidate : Option TypeReference) :
    Except Error Unit := do
  let definition ← checkRecord registry record
  match candidate with
  | none => return ()
  | some candidate =>
    match registry.get? candidate.handle with
    | none => refuse .baseGone
    | some base =>
      if base.variant ≠ definition.variant then
        refuse (.baseVariant definition.variant definition.name base.variant base.name)
      checkReference registry candidate
      if registry.isParentOf record candidate.handle then
        refuse (.ownAncestor definition.name base.name)
      let shadowed := shadowings registry record candidate.handle
      if shadowed ≠ [] then refuse (.shadowed definition.name base.name shadowed)
      match registry.findOpen? (registry.family record) candidate with
      | some offender =>
        refuse (.baseContains definition.name base.name (registry.nameOf offender))
      | none => return ()

/-! ## Field types -/

/-- Refuses a type that a field of a record cannot have. -/
def checkFieldType (registry : Registry) (record : TypeHandle) (candidate : Option TypeReference) :
    Except Error Unit := do
  let _ ← checkRecord registry record
  match candidate with
  | none => refuse .fieldTypeMissing
  | some candidate =>
    checkReference registry candidate
    match registry.findOpen? (registry.family record) candidate with
    | some offender =>
      refuse (.containsItself (registry.render candidate) (registry.nameOf record)
        (registry.nameOf offender))
    | none => return ()

end Legality
end LiveSchema
