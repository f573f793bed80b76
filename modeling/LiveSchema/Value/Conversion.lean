import LiveSchema.Json.Printer
import LiveSchema.Text.Blank
import LiveSchema.Value.Default

/-!
# Converting values

When a field gets another type, its stored values are converted as far as a conversion between the two
types is known: between numbers and truth values, and between these and text.  Every other value
gives way to the default of the new type.
-/

namespace LiveSchema

/-- What becomes of a value whose type changes, from harmless to worst. -/
inductive ConversionResult where
  | preserved
  | corrupted
  | lost
  | impossible
deriving DecidableEq, Repr

namespace ConversionResult

def name : ConversionResult → String
  | preserved => "Preserved"
  | corrupted => "Corrupted"
  | lost => "Lost"
  | impossible => "Impossible"

end ConversionResult

/-! ## Scalars -/

/-- A number or truth value on its way from one type to another. -/
inductive Scalar where
  | integer (value : Int)
  | real (value : Real64)
  | truth (value : Bool)
deriving DecidableEq, Repr

/-- The remainder of an integer among the integers of a kind. -/
def IntegerKind.wrap (kind : IntegerKind) (value : Int) : Int :=
  let count := Nat.pow 2 kind.width.bits
  if kind.signed then value.bmod count else value.emod count

/-- The integer of a kind that is nearest to an integer. -/
def IntegerKind.clamp (kind : IntegerKind) (value : Int) : Int :=
  max kind.least (min value kind.greatest)

namespace Scalar

/-- The scalar of a stored value; what is neither a number nor a truth value counts as zero. -/
def ofJson : Json → Scalar
  | .bool value => .truth value
  | .number (.integer value _) => .integer value
  | .number (.float value) => .real (.finite value)
  | _ => .integer 0

/-- The integer of 64 bits with the sign of `kind`: floating-point numbers lose their fraction and
are limited to the range, an undefined one is zero. -/
def toInt64 (kind : IntegerKind) : Scalar → Int
  | integer value => value
  | real (.finite value) => IntegerKind.clamp ⟨kind.signed, .w64⟩ value.truncate
  | real (.infinite negative) =>
    if negative then IntegerKind.least ⟨kind.signed, .w64⟩
    else IntegerKind.greatest ⟨kind.signed, .w64⟩
  | real .undefined => 0
  | truth value => if value then 1 else 0

/-- The integer of a kind.  Numbers pass through 64 bits first and then lose their higher bits. -/
def toInteger (kind : IntegerKind) (scalar : Scalar) : Int :=
  kind.wrap (scalar.toInt64 kind)

/-- The finite floating-point number nearest to a scalar, if there is one. -/
def toFloat? : Scalar → Option Binary64
  | integer value => Binary64.ofInt? value
  | real (.finite value) => some value
  | real _ => none
  | truth value => Binary64.ofInt? (if value then 1 else 0)

/-- The truth value: everything but zero is true. -/
def toTruth : Scalar → Bool
  | integer value => value ≠ 0
  | real (.finite value) => !value.isZero
  | real _ => true
  | truth value => value

/-- The stored value of a built-in scalar type.  What is not finite there becomes zero. -/
def toJson (scalar : Scalar) : Builtin → Json
  | .integral kind => .ofInt (scalar.toInteger kind)
  | .floating .double => .ofFloat (scalar.toFloat?.getD .zero)
  | .floating .single => .ofFloat ((scalar.toFloat?.bind Binary64.toSingle?).getD .zero)
  | .bool => .bool scalar.toTruth
  | _ => .null

/-- The text of a scalar. -/
def render : Scalar → String
  | integer value => (if value < 0 then "-" else "") ++ Nat.repr value.natAbs
  | real (.finite value) => DecimalStyle.plain.render value
  | real (.infinite negative) => if negative then "-inf" else "inf"
  | real .undefined => "NaN"
  | truth value => if value then "true" else "false"

/-- The number that a text spells; a text that spells none counts as zero. -/
def ofNumberText (text : List Char) : Scalar :=
  match Reading.signed64? text with
  | some value => .integer value
  | none =>
    match Reading.unsigned64? text with
    | some value => .integer value
    | none => .real ((Reading.real64? text).getD (.finite .zero))

/-- The truth value that a text spells, either in words or as a number. -/
def ofTruthText (text : List Char) : Scalar :=
  if text = "true".toList then .truth true
  else if text = "false".toList then .truth false
  else
    match Reading.real64? text with
    | some value => .real value
    | none => .truth false

/-- The scalar of a stored text, on its way to a built-in type. -/
def ofText (target : Builtin) (value : Json) : Scalar :=
  let text := Text.trim (value.string?.getD "").toList
  if target = .bool then ofTruthText text else ofNumberText text

end Scalar

/-! ## The conversions -/

/-- How a value is converted. -/
inductive Conversion where
  /-- From number or truth value to number or truth value. -/
  | cast
  /-- From number or truth value to text. -/
  | toText
  /-- From text to number or truth value. -/
  | ofText
deriving DecidableEq, Repr

/-- Whether a type holds numbers or truth values. -/
def Builtin.isScalar (builtin : Builtin) : Bool :=
  builtin.isNumeric || builtin = .bool

/-- The conversion between two built-in types. -/
def conversion? (source target : Builtin) : Option Conversion :=
  if source.isScalar then
    if target.isScalar then if source = target then none else some .cast
    else if target = .string then some .toText
    else none
  else if source = .string ∧ target.isScalar then some .ofText
  else none

namespace Conversion

/-- Converts a value to a built-in type. -/
def apply (conversion : Conversion) (target : Builtin) (value : Json) : Json :=
  match conversion with
  | cast => (Scalar.ofJson value).toJson target
  | toText => .string (Scalar.ofJson value).render
  | ofText => (Scalar.ofText target value).toJson target

end Conversion

namespace Registry

/-- What will become of a value that goes from one type to another. -/
def classify (registry : Registry) (source target : TypeReference) : ConversionResult :=
  if source = target ∨ source.handle = void then .preserved
  else if target.handle = void then .lost
  else
    match registry.builtin? source.handle, registry.builtin? target.handle with
    | some a, some b => if (conversion? a b).isSome then .corrupted else .lost
    | _, _ => .impossible

/-- The conversion between two types, with the built-in type it leads to. -/
def conversionBetween? (registry : Registry) (source target : TypeReference) :
    Option (Conversion × Builtin) := do
  let a ← registry.builtin? source.handle
  let b ← registry.builtin? target.handle
  let conversion ← conversion? a b
  return (conversion, b)

/-- The value of type `target` made from a value of type `source`. -/
def convert (registry : Registry) (source target : TypeReference) (value : Json) : Json :=
  if source = target then value
  else
    match registry.conversionBetween? source target with
    | some (conversion, builtin) => conversion.apply builtin value
    | none => registry.defaultValue target

end Registry
end LiveSchema
