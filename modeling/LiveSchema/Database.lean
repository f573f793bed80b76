import LiveSchema.Mutation.Carry
import LiveSchema.Project.Restore
import LiveSchema.Value.Description

/-!
# Databases

A database has a content and the log of its changes, and may be kept in the files of a project.  A
mutation that is not refused changes the content, is recorded in the log, and is then written to the
files: first the record, then the schema, then the stores.
-/

namespace LiveSchema

/-- A content that is being edited. -/
structure Database where
  /-- Where the database is kept; without a project it is in memory only. -/
  project : Option Project
  content : Content
  ledger : Ledger

/-- A database, the files of its directory, and the outcome of what was done last. -/
structure Applied where
  database : Database
  files : Directory
  outcome : Except Error Answer

namespace Stores

/-- The stores with an empty main store if there was none. -/
def withMain (stores : Stores) : Stores :=
  if stores.contains mainStore then stores else stores.insert mainStore NameMap.empty

end Stores

namespace Database

/-- A database that starts from nothing and is kept in memory. -/
def inMemory : Database := ⟨none, .initial, .empty⟩

/-- Opens the database of a project.  Damage to the documents is reported before damage to the log. -/
def openProject (digest : String → String) (project : Project) (files : Directory) :
    Except Error Database :=
  let restored : Except Damage Database := do
    let content := ((← project.restore? files).getD ⟨.initial, NameMap.empty⟩)
    let ledger ← project.restoreLedger digest files
    return ⟨some project, ⟨content.registry, content.stores.withMain⟩, ledger⟩
  restored.mapError .corruption

/-- Opens a database. -/
def openAt (digest : String → String) (project : Option Project) (files : Directory) :
    Except Error Database :=
  match project with
  | none => .ok inMemory
  | some project => openProject digest project files

/-- The database with one more record in its log. -/
def record (database : Database) (record : AuditRecord) : Database :=
  { database with ledger := database.ledger.push record }

/-- Records a change and writes it to the files.  A record that cannot be written is not kept, but the
content stays changed. -/
def commit (database : Database) (files : Directory) (record : AuditRecord) :
    Database × Directory × Except Error Unit :=
  match database.project with
  | none => (database.record record, files, .ok ())
  | some project =>
    match files.append project.logFile (record.render ++ "\n") with
    | .error error => (database, files, .error error)
    | .ok files =>
      let (files, outcome) := files.writeAll (project.documents database.content)
      (database.record record, files, outcome)

/-- Carries out a mutation at a time.  A refused mutation changes nothing. -/
def apply (digest : String → String) (time : Timestamp) (database : Database) (files : Directory)
    (mutation : Mutation) : Applied :=
  match mutation.carryOut database.content with
  | .error error => ⟨database, files, .error error⟩
  | .ok change =>
    let record := database.ledger.nextRecord digest mutation.action (.object change.params) time
    let changed := { database with content := change.content }
    let (database, files, outcome) := changed.commit files record
    ⟨database, files, outcome.map fun _ => change.answer⟩

/-! ## Questions -/

/-- The type that a text spells, if it is legal and not too large. -/
def parseType (database : Database) (text : String) : Except Error TypeReference := do
  let reference ← (TypeText.parse database.content.registry text).mapError .parse
  Legality.checkReference database.content.registry reference
  Legality.checkDefaultSize database.content.registry reference
  return reference

/-- A stored value as text for people. -/
def describeRoot? (database : Database) (store root : String) : Option String :=
  (database.content.stores.root? store root).map fun kept =>
    database.content.registry.describe kept.type kept.value

end Database
end LiveSchema
