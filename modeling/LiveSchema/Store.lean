import LiveSchema.NameMap
import LiveSchema.Value.Visit

/-!
# Stores

A store keeps values under names, each with its type.  A database has several stores, which are
addressed by name.
-/

namespace LiveSchema

/-- A stored value and its type. -/
structure Root where
  type : TypeReference
  value : Json
deriving Repr

/-- The values of a store, by name. -/
abbrev Store := NameMap Root

/-- The stores of a database, by name. -/
abbrev Stores := NameMap Store

/-- The store that every database has. -/
def mainStore : String := "main"

namespace Store

/-- The names of the roots that hold a value of a type, anywhere inside them. -/
def mentions (store : Store) (registry : Registry) (handle : TypeHandle) : List String :=
  (store.entries.filter fun entry =>
    registry.containsType entry.2.type entry.2.value handle).map Prod.fst

end Store

namespace Stores

/-- The root of a name in the store of a name. -/
def root? (stores : Stores) (store root : String) : Option Root :=
  (stores.get? store).bind fun kept => kept.get? root

end Stores

/-- What a database holds: its types and its stored values. -/
structure Content where
  registry : Registry
  stores : Stores

namespace Content

/-- The built-in types and an empty main store. -/
def initial : Content :=
  ⟨.initial, NameMap.empty.insert mainStore NameMap.empty⟩

instance : Inhabited Content := ⟨initial⟩

end Content
end LiveSchema
