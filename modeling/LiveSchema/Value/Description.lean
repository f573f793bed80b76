import LiveSchema.Json.Printer
import LiveSchema.TypeText.Printer
import LiveSchema.Value.Visit

/-!
# Descriptions of values

A description is a short text of a value for people, guided by its type: records by name, enumerators
by name, variants by the type they hold.  What does not fit its type is shown as it is stored.
-/

namespace LiveSchema

/-- The name of the first enumerator with a value. -/
def Enumeration.nameOfValue? (enumeration : Enumeration) (value : Int) : Option String :=
  ((enumeration.enumerators.zip enumeration.values).find? fun entry => entry.2.toInt = value).map
    fun entry => entry.1.name

/-- A described field, with its name. -/
def PathSegment.label : PathSegment → String
  | .field name => name ++ ": "
  | _ => ""

namespace Registry

/-- A short text of a value of a type. -/
def describe (registry : Registry) (reference : TypeReference) (value : Json) : String :=
  let children := (registry.childValues reference value).attach.map fun ⟨child, _⟩ =>
    (child, registry.describe child.type child.value)
  let listed := ", ".intercalate (children.map fun (child, text) => child.segment.label ++ text)
  match registry.get? reference.handle with
  | none => value.render
  | some definition =>
    match definition.body with
    | .record _ => definition.name ++ " \x7b " ++ listed ++ " \x7d"
    | .enumeration enumeration =>
      (value.signed?.bind enumeration.nameOfValue?).getD value.render
    | .builtin .list | .builtin .array => "[" ++ listed ++ "]"
    | .builtin .own =>
      match children with
      | (_, text) :: _ => "own " ++ text
      | [] => value.render
    | .builtin .variant =>
      match children with
      | (child, text) :: _ => registry.render child.type ++ "(" ++ text ++ ")"
      | [] => value.render
    | .builtin _ => value.render
termination_by (sizeOf value, sizeOf reference)
decreasing_by exact child_smaller (by assumption)

end Registry
end LiveSchema
