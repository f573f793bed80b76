import LiveSchema.Value.Default

/-!
# Keeping objects in step with their record

`Registry.conform` gives an object exactly the fields of a record; `Entries.renameKey` follows the
renaming of a field.
-/

namespace LiveSchema

namespace Entries

/-- Renames a key in its place.  If the new key occurs already, its first place is kept and the last
of the values. -/
def renameKey (entries : Entries) (source target : String) : Entries :=
  entries.foldl
    (fun done entry => assign (if entry.1 = source then target else entry.1) entry.2 done) []

end Entries

namespace Registry

/-- Moves the fields of a record from `previous` to the end of `done`, in order.  A field that is
missing gets its default value.  The answer holds the new object and what is left over. -/
def conformFields (registry : Registry) (done previous : Entries) : List Field → Entries × Entries
  | [] => (done, previous)
  | field :: rest =>
    match Entries.extract? field.name previous with
    | some (value, remaining) =>
      registry.conformFields (Entries.assign field.name value done) remaining rest
    | none =>
      registry.conformFields
        (Entries.assign field.name (registry.defaultValue field.type) done) previous rest

/-- The object with exactly the effective fields of a record, in order, and the entries that had to
go. -/
def conform (registry : Registry) (record : TypeHandle) (entries : Entries) : Entries × Entries :=
  registry.conformFields [] entries (registry.allFields record)

end Registry
end LiveSchema
