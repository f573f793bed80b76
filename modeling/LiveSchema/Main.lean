import LiveSchema.Database
import LiveSchema.Digest.Blake3
import LiveSchema.Listing
import LiveSchema.Settings.Basic

/-!
# The command line

The program opens the database that the settings name and lists its content.  The only argument is
the path of a file with settings.
-/

open LiveSchema

/-- The file with settings that is looked for if none is named, without its extension. -/
def defaultSettingsFile : String := "typewright"

/-- The paths of a file with settings whose extension may have been left out. -/
def extendedPaths (path : String) : List String :=
  [path ++ ".toml", path ++ ".json"]

/-- The names of the variables that hold settings. -/
def settingVariables : List String :=
  ["project", "directory", "log_filter"].flatMap fun name =>
    [("typewright__" ++ name).toUpper, "typewright__" ++ name]

/-- Reads the variables that hold settings. -/
def readVariables : IO (List (String × String)) :=
  settingVariables.filterMapM fun name => do
    return (← IO.getEnv name).map fun value => (name, value)

/-- Reads the first file with settings that there is. -/
def readSettingsFile : List String → IO (Option SettingsFile)
  | [] => return none
  | path :: rest => do
    match ← (IO.FS.readFile path).toBaseIO with
    | .ok text => return some ⟨path, text⟩
    | .error _ => readSettingsFile rest

/-- Reads the settings. -/
def readSettings (arguments : List String) : IO (Except Error Settings) := do
  let assignments ← readVariables
  match arguments with
  | [] => return Settings.load (← readSettingsFile (extendedPaths defaultSettingsFile)) assignments
  | path :: _ =>
    match ← readSettingsFile (path :: extendedPaths path) with
    | some file => return Settings.load (some file) assignments
    | none => return .error .config

/-- Reads the files of a project. -/
def readFiles (project : Project) : IO Directory := do
  IO.FS.createDirAll project.directory
  let entries ← (← IO.FS.realPath project.directory).readDir
  let names := entries.toList.map fun entry => entry.fileName
  let needed := names.filter fun name =>
    some name = Directory.fileAt? project.schemaFile ||
      some name = Directory.fileAt? project.logFile || (project.storeOfFile? name).isSome
  let files ← needed.mapM fun name => do
    return (name, ← IO.FS.readFile (project.path name))
  return .ofList files

/-- Opens the database that the settings name. -/
def openDatabase (settings : Settings) : IO (Except Error Database) := do
  let files ← match settings.place? with
    | some project => readFiles project
    | none => pure NameMap.empty
  return Database.openAt Blake3.digestText settings.place? files

def main (arguments : List String) : IO UInt32 := do
  let database ← match ← readSettings arguments with
    | .ok settings => openDatabase settings
    | .error error => pure (.error error)
  match database with
  | .ok database =>
    for line in database.content.listing do
      IO.println line
    return 0
  | .error error =>
    IO.eprintln error.message
    return 1
