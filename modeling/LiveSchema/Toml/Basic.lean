import LiveSchema.Numeric.Reading

/-!
# TOML tables

A TOML document is a table.  Its headers and dotted keys lead to tables inside it, which come into
being on the way.  Once a table is complete, nothing can be added to it from elsewhere: how a table
came to be tells what may still extend it.
-/

namespace LiveSchema

/-- How a table came to be. -/
inductive TableOrigin where
  /-- It is the whole document, or a header names it. -/
  | header
  /-- A header leads through it. -/
  | passed
  /-- A dotted key made it or added to it. -/
  | dotted
  /-- It is written as a value. -/
  | inlined
deriving DecidableEq, Repr

/-- A TOML value. -/
inductive TomlValue where
  | string (text : String)
  | integer (value : Int)
  | float (value : Real64)
  | bool (value : Bool)
  /-- A date, a time, or both, in the standard form. -/
  | time (text : String)
  | array (items : List TomlValue)
  | table (origin : TableOrigin) (entries : List (String × TomlValue))
  /-- The tables that headers of one name list one after the other. -/
  | tables (elements : List (List (String × TomlValue)))
deriving Inhabited, Repr

/-- The entries of a table, in order. -/
abbrev TomlEntries := List (String × TomlValue)

namespace TomlEntries

/-- The value under a key. -/
def get? (entries : TomlEntries) (key : String) : Option TomlValue :=
  (List.find? (fun entry => entry.1 = key) entries).map Prod.snd

/-- Replaces the value under a key. -/
def replace (entries : TomlEntries) (key : String) (value : TomlValue) : TomlEntries :=
  List.map (fun entry => if entry.1 = key then (key, value) else entry) entries

/-- A change of a table and of how it counts as made, which may be refused. -/
abbrev Change := TableOrigin → TomlEntries → Option (TableOrigin × TomlEntries)

/-- Changes the table that keys lead to, from a table with the given entries.  Tables that are missing
on the way come into being.  A dotted key does not lead into a table that a header names, and nothing
leads into a table written as a value. -/
def changeAt (isDotted : Bool) (change : Change) : List String → Change
  | [], origin, entries => change origin entries
  | key :: path, origin, entries =>
    match entries.get? key with
    | none =>
      (changeAt isDotted change path (if isDotted then .dotted else .passed) []).map
        fun (made, inner) => (origin, entries ++ [(key, .table made inner)])
    | some (.table made inner) =>
      if made = .inlined ∨ isDotted ∧ made = .header then none
      else
        (changeAt isDotted change path made inner).map fun (made, inner) =>
          (origin, entries.replace key (.table made inner))
    | some (.tables elements) =>
      match elements.getLast? with
      | none => none
      | some last =>
        (changeAt isDotted change path .header last).map fun (_, last) =>
          (origin, entries.replace key (.tables (elements.dropLast ++ [last])))
    | some _ => none

/-- Adds an entry behind dotted keys.  A dotted key adds to a table that no header names, and which no
header may name from then on. -/
def addEntry (path : List String) (key : String) (value : TomlValue) : Change :=
  let isDotted : Bool := path ≠ []
  changeAt isDotted (fun origin entries =>
    if (entries.get? key).isSome then none
    else if !isDotted then some (origin, entries ++ [(key, value)])
    else if origin = .passed ∨ origin = .dotted then some (.dotted, entries ++ [(key, value)])
    else none) path

/-- Opens the table that a header names. -/
def openTable (path : List String) (key : String) : Change :=
  changeAt false (fun origin entries =>
    match entries.get? key with
    | none => some (origin, entries ++ [(key, .table .header [])])
    | some (.table .passed inner) => some (origin, entries.replace key (.table .header inner))
    | some _ => none) path

/-- Opens the next of the tables that headers list. -/
def openElement (path : List String) (key : String) : Change :=
  changeAt false (fun origin entries =>
    match entries.get? key with
    | none => some (origin, entries ++ [(key, .tables [[]])])
    | some (.tables elements) => some (origin, entries.replace key (.tables (elements ++ [[]])))
    | some _ => none) path

end TomlEntries
end LiveSchema
