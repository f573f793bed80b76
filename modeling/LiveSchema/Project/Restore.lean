import LiveSchema.Ledger.Basic
import LiveSchema.Legality.Arguments
import LiveSchema.Project.Basic

/-!
# Restoring projects

The files of a project are read back into a content.  First all types are declared under their names;
then their descriptions are looked up, which may refer to any of them; then the stores are read.
Stored values are taken as they are, whether they conform to their types or not.
-/

namespace LiveSchema

/-! ## Types -/

namespace Registry

/-- The legal type reference that a text in a file spells; `owner` is what the text belongs to. -/
def restoreReference (registry : Registry) (owner text : String) : Except Damage TypeReference :=
  match TypeText.parse registry text with
  | .error cause => .error (.unresolved text owner cause)
  | .ok reference =>
    match Legality.referenceViolation? registry reference with
    | some cause => .error (.illegal text owner cause)
    | none => .ok reference

/-- The field that a descriptor tells of. -/
def restoreField (registry : Registry) (owner : String) (descriptor : FieldDescriptor) :
    Except Damage Field := do
  let type ← registry.restoreReference owner descriptor.type
  return ⟨descriptor.name, type, descriptor.flags, descriptor.description⟩

/-- Gives a declared type what its descriptor tells of it.  Fields have to be legal even where the
type is no record and does not keep them. -/
def describeAs (registry : Registry) (handle : TypeHandle) (descriptor : TypeDescriptor) :
    Except Damage Registry := do
  let owner := registry.nameOf handle
  let base ← descriptor.base.mapM (registry.restoreReference owner)
  let fields ← descriptor.fields.mapM (registry.restoreField owner)
  return registry.modify handle fun definition =>
    let body := match definition.body with
      | .record record => .record ⟨record.kind, fields, descriptor.flags⟩
      | .enumeration _ => .enumeration ⟨descriptor.enumerators⟩
      | .builtin builtin => .builtin builtin
    ⟨definition.name, base, descriptor.parameters, body⟩

end Registry

namespace SchemaDocument

/-- The names of the types in declaration order.  Types that the order does not list come last. -/
def typeNames (document : SchemaDocument) : List String :=
  let listed := document.order.filter document.variants.contains
  listed ++ document.variants.names.filter fun name => !listed.contains name

/-- A type of a document before it is described. -/
def blankDefinition? (document : SchemaDocument) (name : String) : Option TypeDefinition :=
  match document.variants.get? name with
  | some .struct => some (.newRecord .struct name)
  | some .class => some (.newRecord .class name)
  | some .enum => some (.newEnumeration name)
  | _ => none

/-- Declares a type without its description. -/
def declareType (document : SchemaDocument) (registry : Registry) (name : String) :
    Except Damage Registry :=
  match document.blankDefinition? name with
  | none => .error (.builtinDeclared name)
  | some definition =>
    if (registry.resolve? name).isSome then .error (.nameTaken name)
    else .ok (registry.declare definition)

/-- Describes a declared type. -/
def describeType (document : SchemaDocument) (registry : Registry) (handle : TypeHandle) :
    Except Damage Registry :=
  match document.descriptors.get? (registry.nameOf handle) with
  | none => .error (.noDescription (registry.nameOf handle))
  | some descriptor => registry.describeAs handle descriptor

/-- The registry that a document holds. -/
def restore (document : SchemaDocument) : Except Damage Registry := do
  if document.version ≠ schemaVersion then
    throw (.schemaVersion document.version schemaVersion)
  let declared ← document.typeNames.foldlM document.declareType Registry.initial
  declared.userTypes.foldlM document.describeType declared

end SchemaDocument

/-! ## Stores -/

namespace StoreDocument

/-- A root of a document with its type looked up. -/
def restoreRoot (registry : Registry) (entry : String × RootDocument) :
    Except Damage (String × Root) := do
  let type ← registry.restoreReference entry.1 entry.2.type
  return (entry.1, ⟨type, entry.2.value⟩)

/-- The store that a document holds; it has to belong to the given project. -/
def restore (document : StoreDocument) (registry : Registry) (project store : String) :
    Except Damage Store := do
  if document.format ≠ storeFormat then
    throw (.storeFormat store document.format storeFormat)
  if document.schema ≠ project then
    throw (.storeSchema store document.schema project)
  return .ofList (← document.roots.entries.mapM (restoreRoot registry))

end StoreDocument

/-! ## Projects -/

namespace Project

/-- Reads a document of a file. -/
def readDocument {α : Type} (project : Project) (file text : String)
    (parse? : String → Option α) : Except Damage α :=
  match parse? text with
  | some document => .ok document
  | none => .error (.unreadable (project.path file))

/-- Reads the store that a file holds, if it is a store file. -/
def restoreStore (project : Project) (registry : Registry) (stores : Stores)
    (entry : String × String) : Except Damage Stores :=
  match project.storeOfFile? entry.1 with
  | none => .ok stores
  | some name => do
    let document ← project.readDocument entry.1 entry.2 StoreDocument.parse?
    return stores.insert name (← document.restore registry project.name name)

/-- The content that the files of a project hold.  Without a schema file there is none. -/
def restore? (project : Project) (files : Directory) : Except Damage (Option Content) :=
  match files.read? project.schemaFile with
  | none => .ok none
  | some text => do
    let document ← project.readDocument project.schemaFile text SchemaDocument.parse?
    let registry ← document.restore
    let stores ← files.entries.foldlM (project.restoreStore registry) NameMap.empty
    return some ⟨registry, stores⟩

/-- The change log of a project. -/
def restoreLedger (project : Project) (digest : String → String) (files : Directory) :
    Except Damage Ledger :=
  match files.read? project.logFile with
  | none => .ok Ledger.empty
  | some text => Ledger.parse digest text

end Project
end LiveSchema
