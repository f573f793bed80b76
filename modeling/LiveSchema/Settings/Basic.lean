import LiveSchema.Project.Basic
import LiveSchema.Settings.Source

/-!
# Settings

The settings say which project to open, where it lies, and what to log.  Without a directory there is
nothing on disk.
-/

namespace LiveSchema

structure Settings where
  project : String
  directory : Option String
  logFilter : String
deriving DecidableEq, Repr

namespace Settings

/-- What holds where no source says otherwise. -/
def defaults : SettingEntries :=
  [("project", .text "schema"), ("log_filter", .text "info")]

/-- A setting that has to be text. -/
def requiredText (layers : SettingLayers) (name : String) : Except Error String :=
  match layers.get? name with
  | some (.text text) => .ok text
  | _ => .error .config

/-- A setting that may be missing. -/
def optionalText (layers : SettingLayers) (name : String) : Except Error (Option String) :=
  match layers.get? name with
  | none | some .null => .ok none
  | some (.text text) => .ok (some text)
  | some _ => .error .config

/-- The settings that a file, if there is one, and the variables of the environment make. -/
def load (file : Option SettingsFile) (assignments : List (String × String)) :
    Except Error Settings := do
  let ofFile ← match file with
    | some file => file.entries
    | none => .ok []
  let layers : SettingLayers := SettingLayers.setAll NameMap.empty
    (defaults ++ ofFile ++ Environment.entries assignments)
  return {
    project := ← requiredText layers "project"
    directory := ← optionalText layers "directory"
    logFilter := ← requiredText layers "log_filter" }

/-- The project to open; without a directory there is none. -/
def place? (settings : Settings) : Option Project :=
  settings.directory.map fun directory => ⟨directory, settings.project⟩

end Settings
end LiveSchema
