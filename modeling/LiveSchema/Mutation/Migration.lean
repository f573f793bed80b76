import LiveSchema.Store
import LiveSchema.Value.Conversion
import LiveSchema.Value.Revise
import LiveSchema.Value.Upkeep

/-!
# Migrations

When a type changes, every stored value of the type is revised, wherever it lies inside a root.  A
migration looks at the roots of all stores in order, at each root first and then at the values inside
it, under the types as they are after the change.  Values that have to go are kept in a backup.
-/

namespace LiveSchema

variable {σ : Type u}

/-- Where a stored value lies. -/
structure Place where
  store : String
  root : String
  path : ValuePath
deriving DecidableEq, Repr

/-- A value that had to go, or that was converted, and where it was.  `field` is the key it had, if
the place does not tell. -/
structure Backup where
  place : Place
  field : Option String
  value : Json
deriving Repr

namespace Backup

/-- The form of a backup in the change log. -/
def toJson (backup : Backup) : Json :=
  .object ([("store", .string backup.place.store), ("root", .string backup.place.root),
    ("path", .string backup.place.path.render)] ++
      (backup.field.toList.map fun key => ("field", .string key)) ++ [("value", backup.value)])

end Backup

/-- What a migration does with a value of a type at a place, along a state. -/
abbrev Migration (σ : Type u) :=
  σ → Place → TypeReference → Json → σ × Json

namespace Root

/-- Migrates the values of matching types in a root. -/
def migrate (registry : Registry) (concerned : TypeReference → Bool)
    (migration : σ → ValuePath → TypeReference → Json → σ × Json) (state : σ) (root : Root) :
    σ × Root :=
  let (state, value) :=
    if concerned root.type then migration state .root root.type root.value
    else (state, root.value)
  let outcome := registry.revise registry.defaultDepth
    (fun state type path value =>
      if concerned type then
        let (state, value) := migration state path type value
        ⟨state, value, false⟩
      else ⟨state, value, false⟩)
    state root.type value
  (outcome.state, ⟨root.type, outcome.value⟩)

end Root

namespace Stores

/-- Migrates the values of matching types in all stores. -/
def migrate (stores : Stores) (registry : Registry) (concerned : TypeReference → Bool)
    (migration : Migration σ) (state : σ) : σ × Stores :=
  NameMap.mapFrom stores state fun state store kept =>
    NameMap.mapFrom kept state fun state root value =>
      value.migrate registry concerned
        (fun state path type value => migration state ⟨store, root, path⟩ type value) state

end Stores

/-- How many values of a record were met, and what had to go, last first. -/
structure Tally where
  count : Nat := 0
  backups : List Backup := []

namespace Tally

/-- The backups in the order in which they were made. -/
def backup (tally : Tally) : List Backup :=
  tally.backups.reverse

/-- The backups in the change log. -/
def backupJson (tally : Tally) : Json :=
  .array (tally.backup.map Backup.toJson)

/-- Counts a value and adds its backups. -/
def add (tally : Tally) (backups : List Backup) : Tally :=
  ⟨tally.count + 1, backups.reverse ++ tally.backups⟩

end Tally

namespace Stores

/-- Counts the values of a record and of those that derive from it, and revises the objects among
them. -/
def tallyRecords (stores : Stores) (registry : Registry) (record : TypeHandle)
    (change : Place → TypeHandle → Entries → Entries × List Backup) : Tally × Stores :=
  stores.migrate registry (fun type => registry.isParentOf record type.handle)
    (fun tally place type value =>
      match value with
      | .object entries =>
        let (entries, backups) := change place type.handle entries
        (tally.add backups, .object entries)
      | value => (tally.add [], value)) {}

/-- Gives every object of a record, and of those that derive from it, exactly the fields it should
have. -/
def conformRecords (stores : Stores) (registry : Registry) (record : TypeHandle) : Tally × Stores :=
  stores.tallyRecords registry record fun place type entries =>
    let (conformed, leftOver) := registry.conform type entries
    (conformed, leftOver.map fun entry => ⟨place, some entry.1, entry.2⟩)

/-- Renames a field in every object of a record and of those that derive from it. -/
def renameField (stores : Stores) (registry : Registry) (record : TypeHandle)
    (source target : String) : Tally × Stores :=
  stores.tallyRecords registry record fun _ _ entries =>
    (Entries.renameKey entries source target, [])

/-- Converts a field in every object of a record and of those that derive from it.  A field that is
missing starts with the default of its old type. -/
def convertField (stores : Stores) (registry : Registry) (record : TypeHandle) (name : String)
    (source target : TypeReference) : Tally × Stores :=
  stores.tallyRecords registry record fun place _ entries =>
    let before := (Entries.value? entries name).getD (registry.defaultValue source)
    let after := registry.convert source target before
    (Entries.assign name after entries,
      if registry.classify source target = .preserved then [] else [⟨place, none, before⟩])

/-- The value that takes the place of a value of an enumeration: the new value of the first
enumerator that had it, or the replacement for a removed enumerator. -/
def renumbered? (mapping : List (Int64 × Int64)) (removed : Option (Int64 × Int64)) (value : Int) :
    Option Int64 :=
  match mapping.find? fun entry => entry.1.toInt = value with
  | some entry => some entry.2
  | none => (removed.filter fun entry => entry.1.toInt = value).map Prod.snd

/-- Revises the stored values of an enumeration and counts those that change. -/
def renumber (stores : Stores) (registry : Registry) (enumeration : TypeHandle)
    (mapping : List (Int64 × Int64)) (removed : Option (Int64 × Int64)) : Nat × Stores :=
  stores.migrate registry (fun type => type.handle = enumeration)
    (fun changed _ _ value =>
      match value.signed? with
      | none => (changed, value)
      | some current =>
        match renumbered? mapping removed current with
        | some target =>
          if target.toInt = current then (changed, value) else (changed + 1, .ofInt target.toInt)
        | none => (changed, value)) 0

end Stores
end LiveSchema
