import LiveSchema.Document.Decode
import LiveSchema.Json.Printer
import LiveSchema.Schema.Descriptor

/-!
# The schema document

A schema document lists the kinds and the descriptors of the user types by name, and the order in
which they were declared.
-/

namespace LiveSchema

/-- The version of schema documents. -/
def schemaVersion : Nat := 1

/-- The content of a schema document. -/
structure SchemaDocument where
  version : Nat
  variants : NameMap TypeVariant
  descriptors : NameMap TypeDescriptor
  order : List String

/-! ## Parts of descriptors -/

/-- A signed integer of 64 bits. -/
def Decode.int64? (draft : Draft) : Option Int64 :=
  (Decode.value? Json.signed? draft).map Int64.ofInt

/-- An unsigned integer of 32 bits. -/
def Decode.unsigned32? (draft : Draft) : Option Nat :=
  (Decode.value? Json.unsigned? draft).filter fun n => n < 0x100000000

namespace TemplateParameter

def ofDraft? (draft : Draft) : Option TemplateParameter := do
  match ← Decode.slots? ["name", "qualifier", "flags"] draft with
  | [name, qualifier, flags] =>
    return {
      name := ← Decode.required? Decode.string? name
      qualifier := ← Decode.required? (Decode.choice? Qualifier.name Qualifier.all) qualifier
      flags := ← Decode.withDefault? .empty (Decode.text? ParameterFlags.parse?) flags }
  | _ => none

end TemplateParameter

namespace Enumerator

def ofDraft? (draft : Draft) : Option Enumerator := do
  match ← Decode.slots? ["name", "value", "description"] draft with
  | [name, number, description] =>
    return {
      name := ← Decode.required? Decode.string? name
      value := ← Decode.withDefault? none (Decode.nullable? Decode.int64?) number
      description := ← Decode.withDefault? "" Decode.string? description }
  | _ => none

end Enumerator

namespace FieldDescriptor

def ofDraft? (draft : Draft) : Option FieldDescriptor := do
  match ← Decode.slots? ["name", "type", "flags", "description"] draft with
  | [name, type, flags, description] =>
    return {
      name := ← Decode.required? Decode.string? name
      type := ← Decode.required? Decode.string? type
      flags := ← Decode.withDefault? .empty (Decode.text? FieldFlags.parse?) flags
      description := ← Decode.withDefault? "" Decode.string? description }
  | _ => none

end FieldDescriptor

namespace TypeDescriptor

def ofDraft? (draft : Draft) : Option TypeDescriptor := do
  match ← Decode.slots? ["base", "template_parameters", "flags", "fields", "enumerators"] draft with
  | [base, parameters, flags, fields, enumerators] =>
    return {
      base := ← Decode.withDefault? none (Decode.nullable? Decode.string?) base
      parameters := ← Decode.withDefault? [] (Decode.list? TemplateParameter.ofDraft?) parameters
      flags := ← Decode.withDefault? .empty (Decode.text? RecordFlags.parse?) flags
      fields := ← Decode.withDefault? [] (Decode.list? FieldDescriptor.ofDraft?) fields
      enumerators := ← Decode.withDefault? [] (Decode.list? Enumerator.ofDraft?) enumerators }
  | _ => none

end TypeDescriptor

/-! ## The whole document -/

namespace SchemaDocument

def ofDraft? (draft : Draft) : Option SchemaDocument := do
  match ← Decode.slots? ["version", "types", "typedesc", "declaration_order"] draft with
  | [version, variants, descriptors, order] =>
    return {
      version := ← Decode.required? Decode.unsigned32? version
      variants := ← Decode.required?
        (Decode.map? (Decode.choice? TypeVariant.name TypeVariant.all)) variants
      descriptors := ← Decode.required? (Decode.map? TypeDescriptor.ofDraft?) descriptors
      order := ← Decode.withDefault? [] (Decode.list? Decode.string?) order }
  | _ => none

def toJson (document : SchemaDocument) : Json :=
  .object [("version", .ofNat document.version),
    ("types", .object (document.variants.mapValues fun _ variant => .string variant.name).entries),
    ("typedesc", .object (document.descriptors.mapValues fun _ d => d.toJson).entries),
    ("declaration_order", .array (document.order.map .string))]

/-- The document of a registry. -/
def ofRegistry (registry : Registry) : SchemaDocument :=
  let types := registry.userTypes.filterMap registry.get?
  { version := schemaVersion
    variants := .ofList (types.map fun definition => (definition.name, definition.variant))
    descriptors := .ofList (types.map fun definition =>
      (definition.name, registry.describeDefinition definition))
    order := types.map TypeDefinition.name }

def parse? (text : String) : Option SchemaDocument :=
  (Draft.read? text).bind ofDraft?

def render (document : SchemaDocument) : String :=
  document.toJson.renderIndented

end SchemaDocument
end LiveSchema
