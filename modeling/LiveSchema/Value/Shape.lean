import LiveSchema.Schema.Hierarchy
import LiveSchema.Value.Visit

/-!
# The shape of values

`Registry.conforms` decides whether a value has exactly the shape that its type calls for, all the way
down.
-/

namespace LiveSchema

/-- Whether a value is an integer of a kind. -/
def IntegerKind.accepts (kind : IntegerKind) : Json → Bool
  | .number (.integer value _) => kind.holds value
  | _ => false

namespace VectorComponent

/-- Whether a value is a component of a vector. -/
def accepts : VectorComponent → Json → Bool
  | bool, value => value.isBool
  | int, value => IntegerKind.accepts ⟨true, .w32⟩ value
  | unsigned, value => IntegerKind.accepts ⟨false, .w32⟩ value
  | double, value | float, value => value.isNumber

end VectorComponent

/-- Whether a value is an integer of some kind. -/
def Json.isInteger : Json → Bool
  | .number (.integer _ _) => true
  | _ => false

namespace Registry

/-- Whether a value has the shape of a built-in type that holds no values of other types. -/
def simpleConforms (builtin : Builtin) (value : Json) : Bool :=
  match builtin with
  | .void => value.isNull
  | .json => true
  | .floating _ => value.isNumber
  | .bool => value.isBool
  | .string => value.isString
  | .flags => value.unsigned?.isSome
  | .integral kind => kind.accepts value
  | .ref => value.isNull || value.isString
  | .bytes =>
    match value with
    | .array items => items.all (IntegerKind.accepts ⟨false, .w8⟩)
    | _ => false
  | .vector component size =>
    match value with
    | .array items => items.length = size.count && items.all component.accepts
    | _ => false
  | .list | .array | .own | .variant | .map => false

/-- Whether a value has exactly the shape that a type calls for. -/
def conforms (registry : Registry) (reference : TypeReference) (value : Json) : Bool :=
  match registry.get? reference.handle with
  | none => false
  | some definition =>
    match definition.body, value with
    | .enumeration _, value => value.isInteger
    | .record _, .object entries =>
      let fields := registry.allFields reference.handle
      entries.length = fields.length &&
        fields.all fun field =>
          match found : Entries.value? entries field.name with
          | some inner =>
            have := sizeOf_lt_of_entry found
            registry.conforms field.type inner
          | none => false
    | .record _, _ => false
    | .builtin .list, .array items =>
      match reference.typeArgument? 0 with
      | some element =>
        items.attach.all fun ⟨item, member⟩ =>
          have := sizeOf_lt_of_item member
          registry.conforms element item
      | none => false
    | .builtin .array, .array items =>
      match reference.typeArgument? 0 with
      | some element =>
        (reference.sizeArgument? 1).map UInt64.toNat = some items.length &&
          items.attach.all fun ⟨item, member⟩ =>
            have := sizeOf_lt_of_item member
            registry.conforms element item
      | none => false
    | .builtin .own, value =>
      value.isNull ||
        match inner : reference.typeArgument? 0 with
        | some target =>
          have := TypeReference.sizeOf_lt_of_typeArgument? inner
          registry.conforms target value
        | none => false
    | .builtin .variant, .array [index, payload] =>
      match index.unsigned?.bind reference.typeArgument? with
      | some alternative => registry.conforms alternative payload
      | none => false
    | .builtin .map, .array pairs =>
      pairs.attach.all fun ⟨pair, member⟩ =>
        have outer := sizeOf_lt_of_item member
        match pair with
        | .array [key, mapped] =>
          have : sizeOf key + sizeOf mapped < sizeOf pairs := by
            simp only [Json.array.sizeOf_spec, List.cons.sizeOf_spec] at outer
            omega
          match reference.typeArgument? 0, reference.typeArgument? 1 with
          | some keyType, some mappedType =>
            registry.conforms keyType key && registry.conforms mappedType mapped
          | _, _ => false
        | _ => false
    | .builtin builtin, value => simpleConforms builtin value
termination_by (sizeOf value, sizeOf reference)

end Registry
end LiveSchema
