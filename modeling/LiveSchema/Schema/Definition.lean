import LiveSchema.Schema.Builtin
import LiveSchema.Schema.Reference

/-!
# Type definitions

A type is built in, an enumeration, a struct or a class.  Structs and classes are records: they have
fields and may derive from another record.
-/

namespace LiveSchema

/-- A field of a record. -/
structure Field where
  name : String
  type : TypeReference
  flags : FieldFlags := .empty
  description : String := ""
deriving DecidableEq, Repr

/-- The two kinds of records. -/
inductive RecordKind where
  | struct
  | «class»
deriving DecidableEq, Repr

/-- What a record declares itself. -/
structure Record where
  kind : RecordKind
  fields : List Field := []
  flags : RecordFlags := .empty
deriving DecidableEq, Repr

namespace Record

/-- The first own field of a name. -/
def field? (record : Record) (name : String) : Option Field :=
  record.fields.find? fun field => field.name = name

/-- The position of the first own field of a name. -/
def fieldIndex? (record : Record) (name : String) : Option Nat :=
  record.fields.findIdx? fun field => field.name = name

end Record

/-! ## Enumerations -/

/-- A named value of an enumeration. -/
structure Enumerator where
  name : String
  value : Option Int64 := none
  description : String := ""
deriving DecidableEq, Repr

/-- The effective values of enumerators: one without a value of its own follows the one before it,
going round at the end of the range. -/
def Enumerator.valuesFrom (next : Int64) : List Enumerator → List Int64
  | [] => []
  | enumerator :: rest =>
    let value := enumerator.value.getD next
    value :: valuesFrom (value + 1) rest

/-- An enumeration. -/
structure Enumeration where
  enumerators : List Enumerator := []
deriving DecidableEq, Repr

namespace Enumeration

/-- The effective values, in declaration order. -/
def values (enumeration : Enumeration) : List Int64 :=
  Enumerator.valuesFrom 0 enumeration.enumerators

/-- The value of the first enumerator. -/
def defaultValue (enumeration : Enumeration) : Int64 :=
  enumeration.values.headD 0

/-- The first enumerator of a name. -/
def enumerator? (enumeration : Enumeration) (name : String) : Option Enumerator :=
  enumeration.enumerators.find? fun enumerator => enumerator.name = name

end Enumeration

/-! ## Definitions -/

/-- The kinds of types. -/
inductive TypeVariant where
  | builtin
  | enum
  | struct
  | «class»
deriving DecidableEq, Repr

namespace TypeVariant

/-- The kind as text meant for people. -/
def display : TypeVariant → String
  | builtin => "built-in type"
  | enum => "enum"
  | struct => "struct"
  | «class» => "class"

/-- The kind in documents. -/
def name : TypeVariant → String
  | builtin => "builtin"
  | enum => "enum"
  | struct => "struct"
  | «class» => "class"

/-- All kinds. -/
def all : List TypeVariant :=
  [builtin, enum, struct, «class»]

end TypeVariant

/-- What a type is. -/
inductive TypeBody where
  | builtin (builtin : Builtin)
  | enumeration (enumeration : Enumeration)
  | record (record : Record)
deriving DecidableEq, Repr

/-- A type as declared. -/
structure TypeDefinition where
  name : String
  base : Option TypeReference := none
  parameters : List TemplateParameter := []
  body : TypeBody
deriving DecidableEq, Repr

namespace TypeDefinition

/-- The definition of a built-in type. -/
def ofBuiltin (builtin : Builtin) : TypeDefinition where
  name := builtin.name
  parameters := builtin.parameters
  body := .builtin builtin

/-- A new struct or class without fields. -/
def newRecord (kind : RecordKind) (name : String) : TypeDefinition where
  name := name
  body := .record ⟨kind, [], .empty⟩

/-- A new enumeration without enumerators. -/
def newEnumeration (name : String) : TypeDefinition where
  name := name
  body := .enumeration ⟨[]⟩

def variant (definition : TypeDefinition) : TypeVariant :=
  match definition.body with
  | .builtin _ => .builtin
  | .enumeration _ => .enum
  | .record record =>
    match record.kind with
    | .struct => .struct
    | .class => .class

def builtin? (definition : TypeDefinition) : Option Builtin :=
  match definition.body with
  | .builtin builtin => some builtin
  | _ => none

def enumeration? (definition : TypeDefinition) : Option Enumeration :=
  match definition.body with
  | .enumeration enumeration => some enumeration
  | _ => none

def record? (definition : TypeDefinition) : Option Record :=
  match definition.body with
  | .record record => some record
  | _ => none

def isBuiltin (definition : TypeDefinition) : Bool :=
  definition.builtin?.isSome

def isRecord (definition : TypeDefinition) : Bool :=
  definition.record?.isSome

/-- The definition with another record in its body; nothing changes if it is not a record. -/
def mapRecord (definition : TypeDefinition) (f : Record → Record) : TypeDefinition :=
  match definition.body with
  | .record record => { definition with body := .record (f record) }
  | _ => definition

/-- The definition with other enumerators; nothing changes if it is not an enumeration. -/
def mapEnumerators (definition : TypeDefinition) (f : List Enumerator → List Enumerator) :
    TypeDefinition :=
  match definition.body with
  | .enumeration enumeration =>
    { definition with body := .enumeration ⟨f enumeration.enumerators⟩ }
  | _ => definition

/-- The parameter that the argument at a position is checked against.  Surplus arguments fall to the
last parameter if that takes any number of arguments. -/
def parameterFor? (definition : TypeDefinition) (index : Nat) : Option TemplateParameter :=
  match definition.parameters[index]? with
  | some parameter => some parameter
  | none => definition.parameters.getLast?.filter fun parameter => parameter.flags.isMultiple

/-- Whether a built-in type meets a qualifier. -/
def hasQualifier (definition : TypeDefinition) (qualifier : Qualifier) : Bool :=
  match definition.body with
  | .builtin builtin => builtin.qualifiers.contains qualifier
  | _ => false

/-- Whether the argument at a position has to be fully defined before this type can be used. -/
def needsComplete (definition : TypeDefinition) (index : Nat) : Bool :=
  (definition.parameterFor? index).any TemplateParameter.mustBeComplete

/-- The type arguments that have to be fully defined, the first argument having the position
`index`. -/
def completeArguments (definition : TypeDefinition) (index : Nat) :
    List TemplateArgument → List TypeReference
  | [] => []
  | .size _ :: rest => definition.completeArguments (index + 1) rest
  | .type inner :: rest =>
    if definition.needsComplete index then inner :: definition.completeArguments (index + 1) rest
    else definition.completeArguments (index + 1) rest

end TypeDefinition
end LiveSchema
