import LiveSchema.Schema.Registry

/-!
# The index of names

An index beside the definitions leads from names to types and back.  It is kept up to date change by
change.  Writing a pair into it drops every other pair of the same name or of the same type, so an
index that is out of step with the definitions would lose types without notice.
-/

namespace LiveSchema

/-- What a change of types means for their names. -/
inductive NameChange where
  | kept
  | declared (definition : TypeDefinition)
  | renamed (handle : TypeHandle) (name : String)
  | removed (handle : TypeHandle)

/-- Names and types, in pairs. -/
structure NameIndex where
  pairs : List (String × TypeHandle)

namespace NameIndex

/-- Pairs a name with a type.  Other pairs of either are dropped. -/
def insert (index : NameIndex) (name : String) (handle : TypeHandle) : NameIndex :=
  ⟨(name, handle) :: index.pairs.filter fun pair => pair.1 ≠ name && pair.2 ≠ handle⟩

/-- Drops the pair of a type. -/
def erase (index : NameIndex) (handle : TypeHandle) : NameIndex :=
  ⟨index.pairs.filter fun pair => pair.2 ≠ handle⟩

/-- The type of a name. -/
def handle? (index : NameIndex) (name : String) : Option TypeHandle :=
  (index.pairs.find? fun pair => pair.1 = name).map Prod.snd

/-- The name of a type. -/
def name? (index : NameIndex) (handle : TypeHandle) : Option String :=
  (index.pairs.find? fun pair => pair.2 = handle).map Prod.fst

/-- The index of the built-in types, which are declared one after the other. -/
def initial : NameIndex :=
  Builtin.all.zipIdx.foldl (fun index (builtin, place) => index.insert builtin.name ⟨place⟩) ⟨[]⟩

/-- The index after a change; a declared type gets the handle that is next. -/
def follow (index : NameIndex) (next : TypeHandle) : NameChange → NameIndex
  | .kept => index
  | .declared definition => index.insert definition.name next
  | .renamed handle name => (index.erase handle).insert name handle
  | .removed handle => index.erase handle

end NameIndex
end LiveSchema
