import LiveSchema.Document.Schema
import LiveSchema.Document.Store
import LiveSchema.Project.Directory

/-!
# Projects

A project keeps a database in the files of a directory: one for the schema, one for every store, and
one for the change log.  The paths of all of them in the directory start with the name of the project,
which may itself start with steps that stay in the directory.  Stores are found by the names of files,
so those of such a project are written and not found again.
-/

namespace LiveSchema

/-- The place where a database is kept. -/
structure Project where
  directory : String
  name : String
deriving DecidableEq, Repr

namespace Project

/-! ## Paths of files -/

def schemaFile (project : Project) : String :=
  project.name ++ ".schema.json"

/-- The end of the names of store files. -/
def storeEnding : String := ".store.json"

def storeFile (project : Project) (store : String) : String :=
  project.name ++ "." ++ store ++ storeEnding

def logFile (project : Project) : String :=
  project.name ++ ".changelog.jsonl"

/-- The store that a file belongs to, if it is a store file of the project. -/
def storeOfFile? (project : Project) (file : String) : Option String :=
  let opening := (project.name ++ ".").toList
  let ending := storeEnding.toList
  if opening.isPrefixOf file.toList then
    let rest := file.toList.drop opening.length
    if ending.isSuffixOf rest then some (String.ofList (rest.take (rest.length - ending.length)))
    else none
  else none

/-- The path of a file by its path in the directory of the project. -/
def path (project : Project) (file : String) : String :=
  if file.toList.head? = some '/' then file
  else if project.directory = "" ∨ project.directory.toList.getLast? = some '/' then
    project.directory ++ file
  else project.directory ++ "/" ++ file

/-! ## Texts of files -/

/-- The files that hold a content, in the order in which they are written. -/
def documents (project : Project) (content : Content) : List (String × String) :=
  (project.schemaFile, (SchemaDocument.ofRegistry content.registry).render) ::
    content.stores.entries.map fun (name, store) =>
      (project.storeFile name, (StoreDocument.ofStore content.registry project.name store).render)

end Project
end LiveSchema
