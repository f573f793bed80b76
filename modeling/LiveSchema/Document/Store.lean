import LiveSchema.Document.Decode
import LiveSchema.Json.Printer
import LiveSchema.Store
import LiveSchema.TypeText.Printer

/-!
# Store documents

A store document holds the roots of one store, each with its type as text, and names the project it
belongs to.
-/

namespace LiveSchema

/-- The format of store documents. -/
def storeFormat : String := "typewright-store-1"

/-- A root in a store document. -/
structure RootDocument where
  type : String
  value : Json

/-- The content of a store document. -/
structure StoreDocument where
  format : String
  schema : String
  roots : NameMap RootDocument

namespace RootDocument

def ofDraft? (draft : Draft) : Option RootDocument := do
  match ← Decode.slots? ["type", "value"] draft with
  | [type, value] =>
    return {
      type := ← Decode.required? Decode.string? type
      value := ← Decode.required? Draft.toJson? value }
  | _ => none

def toJson (root : RootDocument) : Json :=
  .object [("type", .string root.type), ("value", root.value)]

end RootDocument

namespace StoreDocument

def ofDraft? (draft : Draft) : Option StoreDocument := do
  match ← Decode.slots? ["format", "schema", "roots"] draft with
  | [format, schema, roots] =>
    return {
      format := ← Decode.required? Decode.string? format
      schema := ← Decode.required? Decode.string? schema
      roots := ← Decode.required? (Decode.map? RootDocument.ofDraft?) roots }
  | _ => none

def toJson (document : StoreDocument) : Json :=
  .object [("format", .string document.format), ("schema", .string document.schema),
    ("roots", .object (document.roots.mapValues fun _ root => root.toJson).entries)]

/-- The document of a store of a project. -/
def ofStore (registry : Registry) (project : String) (store : Store) : StoreDocument where
  format := storeFormat
  schema := project
  roots := NameMap.mapValues store fun _ root => ⟨registry.render root.type, root.value⟩

def parse? (text : String) : Option StoreDocument :=
  (Draft.read? text).bind ofDraft?

def render (document : StoreDocument) : String :=
  document.toJson.renderIndented

end StoreDocument
end LiveSchema
