import LiveSchema.Error
import LiveSchema.Json.Parser
import LiveSchema.NameMap
import LiveSchema.Numeric.DecimalText
import LiveSchema.Settings.Key
import LiveSchema.Toml.Parser

/-!
# Sources of settings

A setting is text; a file may also spell it as a number or a truth value, which stands for its text.
Sources are laid over one another: files in JSON or TOML over the defaults, and the environment over
both.  What a later source says of a setting takes the place of what there is, also where it is no
text.
-/

namespace LiveSchema

/-- What sources say about one setting. -/
inductive SettingValue where
  | text (text : String)
  | null
  /-- An array or a table. -/
  | compound
deriving DecidableEq, Repr

/-- What a source says, key by key. -/
abbrev SettingEntries := List (String × SettingValue)

/-- What all sources so far say, setting by setting. -/
abbrev SettingLayers := NameMap SettingValue

namespace SettingLayers

/-- Lays one entry of a source over what is there. -/
def set (layers : SettingLayers) (entry : String × SettingValue) : SettingLayers :=
  let key := SettingKey.parse entry.1
  layers.insert key.name (if key.isInner then .compound else entry.2)

/-- Lays a source over what is there. -/
def setAll (layers : SettingLayers) (entries : SettingEntries) : SettingLayers :=
  entries.foldl set layers

end SettingLayers

/-! ## Values -/

namespace SettingValue

/-- A floating-point number as a setting. -/
def ofReal : Real64 → SettingValue
  | .finite x => text (DecimalStyle.plain.render x)
  | .infinite negative => text (if negative then "-inf" else "inf")
  | .undefined => text "NaN"

def ofBool (value : Bool) : SettingValue :=
  text (if value then "true" else "false")

def ofInt (value : Int) : SettingValue :=
  text (Int.repr value)

def ofJson : Json → SettingValue
  | .null => null
  | .bool value => ofBool value
  | .number (.integer value _) => ofInt value
  | .number (.float value) => ofReal (.finite value)
  | .string value => text value
  | .array _ | .object _ => compound

def ofToml : TomlValue → SettingValue
  | .string value => text value
  | .integer value => ofInt value
  | .float value => ofReal value
  | .bool value => ofBool value
  | .time value => text value
  | .array _ | .table _ _ | .tables _ => compound

end SettingValue

/-! ## Files -/

/-- A file with settings. -/
structure SettingsFile where
  path : String
  text : String
deriving DecidableEq, Repr

namespace SettingsFile

/-- What stands behind the last point of the name of a file; a point at the start of the name does not
count. -/
def extension? (path : String) : Option String :=
  let name := (path.toList.reverse.takeWhile fun c => c ≠ '/').reverse
  let ending := (name.reverse.takeWhile fun c => c ≠ '.').reverse
  if ending.length + 1 < name.length then some (String.ofList ending) else none

/-- The text without a byte order mark at its start. -/
def content (file : SettingsFile) : String :=
  match file.text.toList with
  | '\ufeff' :: rest => String.ofList rest
  | _ => file.text

/-- What a file says.  The extension tells the format. -/
def entries (file : SettingsFile) : Except Error SettingEntries :=
  match extension? file.path with
  | some "json" =>
    match Json.parse? file.content with
    | some (.object entries) =>
      .ok (entries.map fun (key, value) => (key, SettingValue.ofJson value))
    | _ => .error .config
  | some "toml" =>
    match Toml.parse? file.content with
    | some entries => .ok (entries.map fun (key, value) => (key, SettingValue.ofToml value))
    | none => .error .config
  | _ => .error .config

end SettingsFile

/-! ## The environment -/

namespace Environment

/-- What the names of variables start with, in any case. -/
def opening : List Char := "typewright__".toList

/-- A name of a variable as a key: two underscores in a row stand for a point. -/
def keyOf : List Char → List Char
  | '_' :: '_' :: rest => '.' :: keyOf rest
  | c :: rest => c :: keyOf rest
  | [] => []

/-- The setting that a variable of some name and value stands for, if it does for one. -/
def entry? (assignment : String × String) : Option (String × SettingValue) :=
  let name := assignment.1.toList.map Char.toLower
  if opening.isPrefixOf name then
    some (String.ofList (keyOf (name.drop opening.length)), .text assignment.2)
  else none

/-- What variables say, given by name and value. -/
def entries (assignments : List (String × String)) : SettingEntries :=
  assignments.filterMap entry?

end Environment
end LiveSchema
