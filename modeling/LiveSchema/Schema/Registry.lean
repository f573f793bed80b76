import LiveSchema.Schema.Definition

/-!
# The registry of types

The registry keeps every definition under a handle.  Handles are given out in order and never again:
deleting a type leaves its place empty.  Names belong to live types only.
-/

namespace LiveSchema

/-- All types that were ever declared, deleted ones as empty places. -/
structure Registry where
  definitions : Array (Option TypeDefinition)
deriving Repr

namespace Registry

/-- The registry of the built-in types alone. -/
def initial : Registry :=
  ⟨(Builtin.all.map fun builtin => some (TypeDefinition.ofBuiltin builtin)).toArray⟩

instance : Inhabited Registry := ⟨initial⟩

/-- The definition of a live type. -/
def get? (registry : Registry) (handle : TypeHandle) : Option TypeDefinition :=
  match registry.definitions[handle.index]? with
  | some (some definition) => some definition
  | _ => none

/-- Whether a handle belongs to a live type. -/
def isLive (registry : Registry) (handle : TypeHandle) : Bool :=
  (registry.get? handle).isSome

/-- The handles of the live types, in declaration order. -/
def handles (registry : Registry) : List TypeHandle :=
  ((List.range registry.definitions.size).map TypeHandle.mk).filter registry.isLive

/-- How many types are live. -/
def size (registry : Registry) : Nat :=
  registry.handles.length

/-- The handles of the types that are not built in, in declaration order. -/
def userTypes (registry : Registry) : List TypeHandle :=
  registry.handles.filter fun handle => (registry.get? handle).any fun d => !d.isBuiltin

/-- The live type of a name. -/
def resolve? (registry : Registry) (name : String) : Option TypeHandle :=
  registry.handles.find? fun handle => (registry.get? handle).any fun d => d.name = name

/-- The name of a type; a deleted type has a placeholder. -/
def nameOf (registry : Registry) (handle : TypeHandle) : String :=
  match registry.get? handle with
  | some definition => definition.name
  | none => "<deleted>"

/-- The first type, which holds nothing. -/
def void : TypeHandle := ⟨0⟩

def builtin? (registry : Registry) (handle : TypeHandle) : Option Builtin :=
  (registry.get? handle).bind TypeDefinition.builtin?

def record? (registry : Registry) (handle : TypeHandle) : Option Record :=
  (registry.get? handle).bind TypeDefinition.record?

/-! ## Changes -/

/-- The handle that the next declared type gets. -/
def nextHandle (registry : Registry) : TypeHandle :=
  ⟨registry.definitions.size⟩

/-- Declares a type under the next handle. -/
def declare (registry : Registry) (definition : TypeDefinition) : Registry :=
  ⟨registry.definitions.push (some definition)⟩

/-- Changes the definition of a live type. -/
def modify (registry : Registry) (handle : TypeHandle) (f : TypeDefinition → TypeDefinition) :
    Registry :=
  match registry.get? handle with
  | some definition => ⟨registry.definitions.setIfInBounds handle.index (some (f definition))⟩
  | none => registry

/-- Deletes a type. -/
def remove (registry : Registry) (handle : TypeHandle) : Registry :=
  ⟨registry.definitions.setIfInBounds handle.index none⟩

/-- Renames a type. -/
def rename (registry : Registry) (handle : TypeHandle) (name : String) : Registry :=
  registry.modify handle fun definition => { definition with name := name }

/-- Changes the record in a definition. -/
def modifyRecord (registry : Registry) (handle : TypeHandle) (f : Record → Record) : Registry :=
  registry.modify handle fun definition => definition.mapRecord f

/-- Changes the own fields of a record. -/
def modifyFields (registry : Registry) (handle : TypeHandle) (f : List Field → List Field) :
    Registry :=
  registry.modifyRecord handle fun record => { record with fields := f record.fields }

/-- Changes the enumerators of an enumeration. -/
def modifyEnumerators (registry : Registry) (handle : TypeHandle)
    (f : List Enumerator → List Enumerator) : Registry :=
  registry.modify handle fun definition => definition.mapEnumerators f

/-- Sets the base type of a type. -/
def setBase (registry : Registry) (handle : TypeHandle) (base : Option TypeReference) : Registry :=
  registry.modify handle fun definition => { definition with base := base }

/-! ## Qualifiers -/

/-- Whether a type may stand for a parameter with a qualifier. -/
def satisfies (registry : Registry) (handle : TypeHandle) (qualifier : Qualifier) : Bool :=
  match registry.get? handle with
  | none => false
  | some definition =>
    match qualifier with
    | .anyType => true
    | .size => false
    | .structType => definition.variant = .struct
    | .classType => definition.variant = .class
    | .enumType => definition.variant = .enum
    | .notClass => definition.variant ≠ .class
    | .integral | .floating | .pointer => definition.hasQualifier qualifier
    | .scalar => definition.variant = .enum || definition.hasQualifier qualifier

/-! ## Free names -/

/-- The candidate `base` followed by the least number from `first` on whose name is not taken, among
`tries` candidates. -/
def freshName (taken : String → Bool) (base : String) (first : Nat) : Nat → String
  | 0 => base
  | tries + 1 =>
    let candidate := base ++ Nat.repr first
    if taken candidate then freshName taken base (first + 1) tries else candidate

/-- A name for a new type: `base` and the least positive number that makes it unused.  There are more
candidates than live types. -/
def freshTypeName (registry : Registry) (base : String) : String :=
  freshName (fun name => (registry.resolve? name).isSome) base 1 (registry.size + 1)

end Registry
end LiveSchema
