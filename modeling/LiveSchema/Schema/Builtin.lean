import LiveSchema.Schema.Flags

/-!
# Built-in types

The closed set of types that every schema has: numbers, text, containers, pointers and vectors.  Some
of them take template arguments, which qualifiers restrict.
-/

namespace LiveSchema

/-- A condition on the argument of a template parameter. -/
inductive Qualifier where
  | anyType
  | structType
  | notClass
  | enumType
  | integral
  | floating
  | size
  | pointer
  | classType
  | scalar
deriving DecidableEq, Repr

namespace Qualifier

/-- All qualifiers. -/
def all : List Qualifier :=
  [anyType, structType, notClass, enumType, integral, floating, size, pointer, classType, scalar]

/-- The name of a qualifier in documents. -/
def name : Qualifier → String
  | anyType => "AnyType"
  | structType => "Struct"
  | notClass => "NotClass"
  | enumType => "Enum"
  | integral => "Integral"
  | floating => "Floating"
  | size => "Size"
  | pointer => "Pointer"
  | classType => "Class"
  | scalar => "Scalar"

end Qualifier

/-- A parameter of a generic type. -/
structure TemplateParameter where
  name : String
  qualifier : Qualifier
  flags : ParameterFlags
deriving DecidableEq, Repr

namespace TemplateParameter

/-- Whether an argument has to be fully defined first. -/
def mustBeComplete (parameter : TemplateParameter) : Bool :=
  !parameter.flags.canBeIncomplete

end TemplateParameter

/-! ## Kinds of integers and vectors -/

/-- The widths of integers. -/
inductive Width where
  | w8
  | w16
  | w32
  | w64
deriving DecidableEq, Repr

namespace Width

def bits : Width → Nat
  | w8 => 8
  | w16 => 16
  | w32 => 32
  | w64 => 64

end Width

/-- A kind of integer. -/
structure IntegerKind where
  signed : Bool
  width : Width
deriving DecidableEq, Repr

namespace IntegerKind

/-- How many integers of a kind are not negative. -/
def magnitude (kind : IntegerKind) : Nat :=
  Nat.pow 2 (if kind.signed then kind.width.bits - 1 else kind.width.bits)

/-- The least integer of a kind. -/
def least (kind : IntegerKind) : Int :=
  if kind.signed then -(kind.magnitude : Int) else 0

/-- The greatest integer of a kind. -/
def greatest (kind : IntegerKind) : Int :=
  kind.magnitude - 1

/-- Whether an integer belongs to a kind. -/
def holds (kind : IntegerKind) (value : Int) : Bool :=
  kind.least ≤ value && value ≤ kind.greatest

def name (kind : IntegerKind) : String :=
  (if kind.signed then "i" else "u") ++ Nat.repr kind.width.bits

/-- All kinds, the signed ones first. -/
def all : List IntegerKind :=
  [true, false].flatMap fun signed =>
    [Width.w8, .w16, .w32, .w64].map fun width => ⟨signed, width⟩

end IntegerKind

/-- The kinds of floating-point numbers. -/
inductive FloatKind where
  | single
  | double
deriving DecidableEq, Repr

/-- What the components of a vector are. -/
inductive VectorComponent where
  | bool
  | int
  | unsigned
  | double
  | float
deriving DecidableEq, Repr

namespace VectorComponent

def all : List VectorComponent :=
  [bool, int, unsigned, double, float]

/-- What a vector's name starts with. -/
def mark : VectorComponent → String
  | bool => "b"
  | int => "i"
  | unsigned => "u"
  | double => "d"
  | float => ""

end VectorComponent

/-- How many components a vector has. -/
inductive VectorSize where
  | two
  | three
  | four
deriving DecidableEq, Repr

namespace VectorSize

def all : List VectorSize :=
  [two, three, four]

def count : VectorSize → Nat
  | two => 2
  | three => 3
  | four => 4

end VectorSize

/-! ## The built-in types -/

/-- A built-in type. -/
inductive Builtin where
  | void
  | floating (kind : FloatKind)
  | integral (kind : IntegerKind)
  | bool
  | string
  | bytes
  | flags
  | list
  | array
  | ref
  | own
  | variant
  | map
  | json
  | vector (component : VectorComponent) (size : VectorSize)
deriving DecidableEq, Repr

namespace Builtin

/-- The built-in types in the order of their handles. -/
def all : List Builtin :=
  [void, floating .single, floating .double] ++ IntegerKind.all.map integral ++
    [bool, string, bytes, flags, list, array, ref, own, variant, map, json] ++
    VectorComponent.all.flatMap fun component => VectorSize.all.map (vector component)

def name : Builtin → String
  | void => "void"
  | floating .single => "f32"
  | floating .double => "f64"
  | integral kind => kind.name
  | bool => "bool"
  | string => "string"
  | bytes => "bytes"
  | flags => "flags"
  | list => "list"
  | array => "array"
  | ref => "ref"
  | own => "own"
  | variant => "variant"
  | map => "map"
  | json => "json"
  | vector component size => component.mark ++ "vec" ++ Nat.repr size.count

def isIntegral : Builtin → Bool
  | integral _ => true
  | _ => false

def isFloating : Builtin → Bool
  | floating _ => true
  | _ => false

def isNumeric (builtin : Builtin) : Bool :=
  builtin.isIntegral || builtin.isFloating

/-- The template parameters of a built-in type. -/
def parameters : Builtin → List TemplateParameter
  | flags => [⟨"ENUM", .enumType, .empty⟩]
  | list => [⟨"ELEMENT", .anyType, .empty⟩]
  | array => [⟨"ELEMENT", .anyType, .empty⟩, ⟨"SIZE", .size, .empty⟩]
  | ref | own => [⟨"POINTEE", .anyType, .incomplete⟩]
  | variant => [⟨"TYPES", .anyType, .multiple⟩]
  | map => [⟨"KEY", .scalar, .empty⟩, ⟨"VALUE", .anyType, .empty⟩]
  | _ => []

/-- The qualifiers a built-in type meets. -/
def qualifiers : Builtin → List Qualifier
  | void => [.anyType]
  | integral _ => [.anyType, .notClass, .scalar, .integral]
  | floating _ => [.anyType, .notClass, .scalar, .floating]
  | bool | string => [.anyType, .notClass, .scalar]
  | ref | own => [.anyType, .notClass, .pointer]
  | _ => [.anyType, .notClass]

/-- Whether values may hold references that matter to memory management. -/
def markable : Builtin → Bool
  | list | array | ref | own | variant | map => true
  | _ => false

end Builtin
end LiveSchema
