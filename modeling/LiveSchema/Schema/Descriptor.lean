import LiveSchema.Json.Basic
import LiveSchema.TypeText.Printer

/-!
# Descriptors of types

A descriptor is a type as it is kept in documents: everything about it except its name and its kind,
with type references as text.  Parts that are empty are left out of its JSON form.
-/

namespace LiveSchema

/-- A field as it is kept in documents. -/
structure FieldDescriptor where
  name : String
  type : String
  flags : FieldFlags
  description : String
deriving DecidableEq, Repr

/-- A type as it is kept in documents. -/
structure TypeDescriptor where
  base : Option String
  parameters : List TemplateParameter
  flags : RecordFlags
  fields : List FieldDescriptor
  enumerators : List Enumerator
deriving DecidableEq, Repr

/-- An entry of an object, unless it is left out. -/
def entryUnless (omitted : Bool) (key : String) (value : Json) : Entries :=
  if omitted then [] else [(key, value)]

namespace TemplateParameter

def toJson (parameter : TemplateParameter) : Json :=
  .object [("name", .string parameter.name), ("qualifier", .string parameter.qualifier.name),
    ("flags", .string parameter.flags.render)]

end TemplateParameter

namespace Enumerator

def toJson (enumerator : Enumerator) : Json :=
  .object ([("name", .string enumerator.name)] ++
    (enumerator.value.toList.map fun value => ("value", .ofInt value.toInt)) ++
    [("description", .string enumerator.description)])

end Enumerator

namespace FieldDescriptor

def toJson (field : FieldDescriptor) : Json :=
  .object ([("name", .string field.name), ("type", .string field.type)] ++
    entryUnless (field.flags = .empty) "flags" (.string field.flags.render) ++
    entryUnless (field.description = "") "description" (.string field.description))

end FieldDescriptor

namespace TypeDescriptor

/-- The descriptor that says nothing. -/
def empty : TypeDescriptor := ⟨none, [], .empty, [], []⟩

def toJson (descriptor : TypeDescriptor) : Json :=
  .object ((descriptor.base.toList.map fun base => ("base", .string base)) ++
    entryUnless descriptor.parameters.isEmpty "template_parameters"
      (.array (descriptor.parameters.map TemplateParameter.toJson)) ++
    entryUnless (descriptor.flags = .empty) "flags" (.string descriptor.flags.render) ++
    entryUnless descriptor.fields.isEmpty "fields"
      (.array (descriptor.fields.map FieldDescriptor.toJson)) ++
    entryUnless descriptor.enumerators.isEmpty "enumerators"
      (.array (descriptor.enumerators.map Enumerator.toJson)))

end TypeDescriptor

namespace Registry

/-- A field as it is kept in documents. -/
def describeField (registry : Registry) (field : Field) : FieldDescriptor :=
  ⟨field.name, registry.render field.type, field.flags, field.description⟩

/-- A definition as it is kept in documents. -/
def describeDefinition (registry : Registry) (definition : TypeDefinition) : TypeDescriptor :=
  let base := definition.base.map registry.render
  match definition.body with
  | .builtin _ => ⟨base, definition.parameters, .empty, [], []⟩
  | .enumeration enumeration => ⟨base, definition.parameters, .empty, [], enumeration.enumerators⟩
  | .record record =>
    ⟨base, definition.parameters, record.flags, record.fields.map registry.describeField, []⟩

end Registry
end LiveSchema
