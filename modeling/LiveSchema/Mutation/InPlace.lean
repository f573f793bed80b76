import LiveSchema.Mutation.Carry

/-!
# Mutations in place

A mutation may also be carried out on the content itself, one step after the other.  Each check reads
what was written so far, and a refusal does not take back what was written before it.  So it depends on
the order of checks and writes whether a refused mutation leaves a trace.
-/

namespace LiveSchema

/-- Steps that read and write a content, until one of them fails. -/
abbrev Edit := ExceptT Error (StateM Content)

/-- What a mutation tells: what the change log says about it, and the answer to the user. -/
structure Report where
  params : Entries
  answer : Answer := .done

namespace Edit

variable {α : Type}

/-- The outcome of an edit, and the content that it leaves behind. -/
def on (edit : Edit α) (content : Content) : Except Error α × Content :=
  edit.run.run content

/-- Asks a question about the content, and fails where the question has no answer. -/
def check (question : Content → Except Error α) : Edit α :=
  ExceptT.mk (return question (← get))

/-- The types as they are now. -/
def registry : Edit Registry :=
  return (← get).registry

/-- Writes to the registry. -/
def writeRegistry (change : Registry → Registry) : Edit Unit :=
  modify fun content => content.withRegistry (change content.registry)

/-- Writes to the stores, with regard to the types as they are now. -/
def writeStores (change : Registry → Stores → α × Stores) : Edit α :=
  modifyGet fun content =>
    let (answer, stores) := change content.registry content.stores
    (answer, { content with stores := stores })

/-- Writes to the definition of a type, which has to be live. -/
def writeDefinition (handle : TypeHandle) (change : TypeDefinition → TypeDefinition) : Edit Unit := do
  let _ ← check fun content => Legality.definitionOf content.registry handle
  writeRegistry fun registry => registry.modify handle change

/-- Writes to a record, which has to be live. -/
def writeRecord (handle : TypeHandle) (change : Record → Record) : Edit Unit := do
  let definition ← check fun content => Legality.definitionOf content.registry handle
  if definition.isRecord then writeRegistry fun registry => registry.modifyRecord handle change
  else throw (.invariant (.noRecord handle))

/-- Writes to the own fields of a record, which has to be live. -/
def writeFields (handle : TypeHandle) (change : List Field → List Field) : Edit Unit :=
  writeRecord handle fun record => { record with fields := change record.fields }

/-- Writes to the enumerators of an enumeration, which has to be live. -/
def writeEnumerators (handle : TypeHandle) (change : List Enumerator → List Enumerator) :
    Edit Unit := do
  let definition ← check fun content => Legality.definitionOf content.registry handle
  if definition.enumeration?.isSome then
    writeRegistry fun registry => registry.modifyEnumerators handle change
  else throw (.invariant (.noEnumeration handle))

/-- The record behind a handle, which has to be live. -/
def readRecord (handle : TypeHandle) : Edit Record :=
  check fun content => do
    let definition ← Legality.definitionOf content.registry handle
    match definition.record? with
    | some record => .ok record
    | none => .error (.invariant (.notRecord definition.name))

/-- The effective values of an enumeration, which has to be live. -/
def readValues (handle : TypeHandle) : Edit (List Int64) :=
  check fun content => do
    let definition ← Legality.definitionOf content.registry handle
    match definition.enumeration? with
    | some enumeration => .ok enumeration.values
    | none => .error (.invariant (.notEnumeration definition.name))

/-- Gives every object of a record, and of those that derive from it, exactly the fields it should
have. -/
def conformRecords (record : TypeHandle) : Edit Tally :=
  writeStores fun registry stores => stores.conformRecords registry record

/-! ## Types -/

def addType (base : String) (make : String → TypeDefinition) : Edit Report := do
  let types ← registry
  let name := types.freshTypeName base
  if (types.resolve? name).isSome then throw (.invariant (.nameTaken name))
  writeRegistry fun registry => registry.declare (make name)
  return { params := [("name", .string name)], answer := .type types.nextHandle }

def setTypeName (handle : TypeHandle) (name : String) : Edit Report := do
  let _ ← check fun content => content.checkUserType handle
  check fun content => Legality.checkTypeName content.registry handle name
  let old := (← registry).nameOf handle
  writeDefinition handle fun definition => { definition with name := name }
  let content ← get
  let roots := (content.stores.values.flatMap fun store =>
    store.mentions content.registry handle).length
  return { params := [("from", .string old), ("to", .string name), ("roots", .ofNat roots)] }

def setRecordBaseType (record : TypeHandle) (base : Option TypeReference) : Edit Report := do
  check fun content => Legality.checkBase content.registry record base
  let definition ← check fun content => Legality.definitionOf content.registry record
  let previous := Content.referenceJson (← registry) definition.base
  let next := Content.referenceJson (← registry) base
  writeDefinition record fun definition => { definition with base := base }
  let tally ← conformRecords record
  return { params := [("record", .string ((← registry).nameOf record)), ("from", previous),
    ("to", next), ("migrated", .ofNat tally.count), ("backup", tally.backupJson)] }

def setRecordTable (record : TypeHandle) (enabled : Bool) : Edit Report := do
  let _ ← check fun content => Legality.checkRecord content.registry record
  let flags := (← readRecord record).flags.withTable enabled
  check fun content => Legality.checkRecordFlags content.registry record flags
  writeRecord record fun own => { own with flags := flags }
  return { params := [("record", .string ((← registry).nameOf record)), ("table", .bool enabled)] }

def deleteType (handle : TypeHandle) : Edit Report := do
  let _ ← check fun content => content.checkUserType handle
  let content ← get
  let name := content.registry.nameOf handle
  let usages := content.usages handle
  let blocking := (usages.filter Usage.isBlocking).map content.describeUsage
  if blocking ≠ [] then throw (.usageConflict name blocking)
  let definition ← check fun content => Legality.definitionOf content.registry handle
  let described := (← registry).describeDefinition definition
  let removed ← writeStores fun registry stores =>
    Content.removeRoots registry stores (Content.dataRoots usages)
  let variant := (← check fun content => Legality.definitionOf content.registry handle).variant
  let _ ← check fun content => Legality.definitionOf content.registry handle
  writeRegistry fun registry => registry.remove handle
  return { params := [("name", .string name), ("variant", .string variant.name),
    ("definition", described.toJson), ("roots", .array removed)] }

/-! ## Fields -/

def addField (record : TypeHandle) : Edit Report := do
  let _ ← check fun content => Legality.checkRecord content.registry record
  let name := Content.freshFieldName (← registry) record
  writeFields record fun fields => fields ++ [⟨name, .plain Registry.void, .empty, ""⟩]
  let tally ← conformRecords record
  return {
    params := [("record", .string ((← registry).nameOf record)), ("field", .string name),
      ("type", .string Builtin.void.name), ("migrated", .ofNat tally.count)]
    answer := .name name }

def setFieldName (record : TypeHandle) (field name : String) : Edit Report := do
  let (index, _) ← check fun content => content.checkOwnField record field
  check fun content => Legality.checkFieldName content.registry record (some field) name
  writeFields record fun fields => fields.modify index fun own => { own with name := name }
  let tally ← writeStores fun registry stores => stores.renameField registry record field name
  return { params := [("record", .string ((← registry).nameOf record)), ("from", .string field),
    ("to", .string name), ("migrated", .ofNat tally.count)] }

def setFieldType (record : TypeHandle) (field : String) (type : TypeReference) : Edit Report := do
  let (index, old) ← check fun content => content.checkOwnField record field
  check fun content => Legality.checkFieldType content.registry record (some type)
  let _ ← readRecord record
  check fun content => Legality.checkFieldFlags content.registry record type old.flags
  writeFields record fun fields => fields.modify index fun own => { own with type := type }
  let result := (← registry).classify old.type type
  let tally ← writeStores fun registry stores =>
    stores.convertField registry record old.name old.type type
  return {
    params := [("record", .string ((← registry).nameOf record)), ("field", .string field),
      ("from", .string ((← registry).render old.type)), ("to", .string ((← registry).render type)),
      ("result", .string result.name), ("migrated", .ofNat tally.count),
      ("backup", tally.backupJson)]
    answer := .conversion result }

def setFieldFlags (record : TypeHandle) (field : String) (flags : FieldFlags) : Edit Report := do
  let (index, own) ← check fun content => content.checkOwnField record field
  let _ ← readRecord record
  check fun content => Legality.checkFieldFlags content.registry record own.type flags
  writeFields record fun fields => fields.modify index fun own => { own with flags := flags }
  return { params := [("record", .string ((← registry).nameOf record)), ("field", .string field),
    ("flags", .string flags.render)] }

def swapFields (record : TypeHandle) (first second : Nat) : Edit Report := do
  let definition ← check fun content => Legality.checkRecord content.registry record
  let count := (← readRecord record).fields.length
  match [first, second].find? fun position => count ≤ position with
  | some position => throw (.invalid (.noFieldAt definition.name position))
  | none =>
    writeFields record fun fields => Content.exchange fields first second
    let tally ← conformRecords record
    return { params := [("record", .string ((← registry).nameOf record)), ("first", .ofNat first),
      ("second", .ofNat second), ("migrated", .ofNat tally.count)] }

/-- The field is taken out of the one record before it is put into the other. -/
def moveField (source : TypeHandle) (field : String) (target : TypeHandle) : Edit Report := do
  let (index, own) ← check fun content => content.checkOwnField source field
  let definition ← check fun content => Legality.checkRecord content.registry target
  let types ← registry
  if !types.isStrictAncestor source target then
    throw (.invalid (.notDerived definition.name (types.nameOf source)))
  if (← readRecord target).fields.any fun declared => declared.name = field then
    throw (.invalid (.fieldDeclared definition.name field))
  let _ ← readRecord source
  check fun content => Legality.checkFieldFlags content.registry target own.type own.flags
  writeFields source fun fields => fields.eraseIdx index
  writeFields target fun fields => own :: fields
  let tally ← conformRecords source
  return { params := [("from", .string ((← registry).nameOf source)), ("field", .string field),
    ("to", .string ((← registry).nameOf target)), ("migrated", .ofNat tally.count),
    ("backup", tally.backupJson)] }

/-- The fields are copied before the base type is set. -/
def flattenBase (record : TypeHandle) : Edit Report := do
  let definition ← check fun content => Legality.checkRecord content.registry record
  match (← registry).baseOf? record with
  | none => throw (.invalid (.noBase definition.name))
  | some base =>
    let grandparent := (← check fun content => Legality.definitionOf content.registry base).base
    check fun content => Legality.checkBase content.registry record grandparent
    let copied := (← readRecord base).fields
    check fun content => copied.forM fun field =>
      Legality.checkFieldFlags content.registry record field.type field.flags
    let rendered := Content.referenceJson (← registry) grandparent
    writeFields record fun own => copied ++ own
    writeDefinition record fun definition => { definition with base := grandparent }
    let tally ← conformRecords record
    return { params := [("record", .string ((← registry).nameOf record)),
      ("base", .string ((← registry).nameOf base)), ("new_base", rendered),
      ("fields", .array (copied.map fun field => .string field.name)),
      ("migrated", .ofNat tally.count)] }

def deleteField (record : TypeHandle) (field : String) : Edit Report := do
  let (index, removed) ← check fun content => content.checkOwnField record field
  writeFields record fun fields => fields.eraseIdx index
  let tally ← conformRecords record
  return { params := [("record", .string ((← registry).nameOf record)),
    ("field", .string removed.name), ("type", .string ((← registry).render removed.type)),
    ("flags", .string removed.flags.render), ("description", .string removed.description),
    ("migrated", .ofNat tally.count), ("backup", tally.backupJson)] }

/-! ## Enumerators -/

def addEnumerator (handle : TypeHandle) : Edit Report := do
  let (_, enumeration) ← check fun content => Legality.checkEnumeration content.registry handle
  let name := Content.freshEnumeratorName (← registry) handle enumeration
  writeEnumerators handle fun enumerators => enumerators ++ [⟨name, none, ""⟩]
  return {
    params := [("enum", .string ((← registry).nameOf handle)), ("enumerator", .string name)]
    answer := .name name }

def setEnumeratorName (handle : TypeHandle) (index : Nat) (name : String) : Edit Report := do
  let (_, _, enumerator) ← check fun content => content.checkEnumerator handle index
  check fun content => Legality.checkEnumeratorName content.registry handle (some index) name
  writeEnumerators handle fun enumerators =>
    enumerators.modify index fun own => { own with name := name }
  return { params := [("enum", .string ((← registry).nameOf handle)),
    ("from", .string enumerator.name), ("to", .string name)] }

/-- The new effective values are read after the enumerator was written. -/
def setEnumeratorValue (handle : TypeHandle) (index : Nat) (value : Option Int64) :
    Edit Report := do
  let _ ← check fun content => content.checkEnumerator handle index
  let old ← readValues handle
  writeEnumerators handle fun enumerators =>
    enumerators.modify index fun own => { own with value := value }
  let new ← readValues handle
  let migrated ← writeStores fun registry stores =>
    stores.renumber registry handle (old.zip new) none
  return { params := [("enum", .string ((← registry).nameOf handle)), ("index", .ofNat index),
    ("from", Content.valueAt old index), ("to", Content.valueAt new index),
    ("migrated", .ofNat migrated)] }

def deleteEnumerator (handle : TypeHandle) (index : Nat) : Edit Report := do
  let (_, _, removed) ← check fun content => content.checkEnumerator handle index
  let old ← readValues handle
  writeEnumerators handle fun enumerators => enumerators.eraseIdx index
  let new ← readValues handle
  let migrated ← writeStores fun registry stores =>
    stores.renumber registry handle ((old.eraseIdx index).zip new)
      (some (old[index]?.getD 0, new.headD 0))
  return { params := [("enum", .string ((← registry).nameOf handle)),
    ("enumerator", removed.toJson), ("value", Content.valueAt old index),
    ("migrated", .ofNat migrated)] }

/-! ## Stores -/

def addStore (store : String) : Edit Report := do
  check fun _ => Legality.checkIdentifier store
  if (← get).stores.contains store then throw (.invalid (.storeExists store))
  writeStores fun _ stores => ((), stores.insert store NameMap.empty)
  return { params := [("store", .string store)] }

def addRoot (store root : String) (type : TypeReference) : Edit Report := do
  let existing ← check fun content => content.checkStore store
  check fun _ => Legality.checkIdentifier root
  if NameMap.contains existing root then throw (.invalid (.rootExists store root))
  check fun content => Legality.checkReference content.registry type
  check fun content => Legality.checkDefaultSize content.registry type
  let added : Root := ⟨type, (← registry).defaultValue type⟩
  let rendered := (← registry).render type
  writeStores fun _ stores =>
    match stores.get? store with
    | some kept => ((), stores.insert store (NameMap.insert kept root added))
    | none => ((), stores)
  return { params := [("store", .string store), ("root", .string root),
    ("type", .string rendered)] }

def setRootValue (store root : String) (value : Json) : Edit Report := do
  let (_, previous) ← check fun content => content.checkRoot store root
  let types ← registry
  if !types.conforms previous.type value then
    throw (.invalid (.misfit (types.render previous.type)))
  match (← get).stores.root? store root with
  | none => throw (.invariant (.rootVanished root))
  | some slot =>
    writeStores fun _ stores =>
      match stores.get? store with
      | some kept =>
        ((), stores.insert store (NameMap.insert kept root { slot with value := value }))
      | none => ((), stores)
    return { params := [("store", .string store), ("root", .string root), ("from", slot.value),
      ("to", value)] }

/-- Whether there was a root shows when it is taken out. -/
def deleteRoot (store root : String) : Edit Report := do
  let _ ← check fun content => content.checkStore store
  let taken ← writeStores fun _ stores =>
    match stores.get? store with
    | some kept => (NameMap.get? kept root, stores.insert store (NameMap.erase kept root))
    | none => (none, stores)
  match taken with
  | none => throw (.invalid (.noRoot store root))
  | some removed =>
    return { params := [("store", .string store), ("root", .string root),
      ("type", .string ((← registry).render removed.type)), ("value", removed.value)] }

end Edit

namespace Mutation

/-- The steps of a mutation on a content. -/
def edit : Mutation → Edit Report
  | addStruct => Edit.addType "Struct" (TypeDefinition.newRecord .struct)
  | addClass => Edit.addType "Class" (TypeDefinition.newRecord .class)
  | addEnum => Edit.addType "Enum" TypeDefinition.newEnumeration
  | setTypeName type name => Edit.setTypeName type name
  | setRecordBaseType record base => Edit.setRecordBaseType record base
  | setRecordTable record enabled => Edit.setRecordTable record enabled
  | deleteType type => Edit.deleteType type
  | addField record => Edit.addField record
  | setFieldName record field name => Edit.setFieldName record field name
  | setFieldType record field type => Edit.setFieldType record field type
  | setFieldFlags record field flags => Edit.setFieldFlags record field flags
  | swapFields record first second => Edit.swapFields record first second
  | moveField source field target => Edit.moveField source field target
  | flattenBase record => Edit.flattenBase record
  | deleteField record field => Edit.deleteField record field
  | addEnumerator enumeration => Edit.addEnumerator enumeration
  | setEnumeratorName enumeration index name => Edit.setEnumeratorName enumeration index name
  | setEnumeratorValue enumeration index value => Edit.setEnumeratorValue enumeration index value
  | deleteEnumerator enumeration index => Edit.deleteEnumerator enumeration index
  | addStore store => Edit.addStore store
  | addRoot store root type => Edit.addRoot store root type
  | setRootValue store root value => Edit.setRootValue store root value
  | deleteRoot store root => Edit.deleteRoot store root

end Mutation
end LiveSchema
