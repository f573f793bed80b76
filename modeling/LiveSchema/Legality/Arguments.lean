import LiveSchema.Error
import LiveSchema.TypeText.Printer
import LiveSchema.Value.Default

/-!
# Legal type references

A type reference is legal if every type in it exists, has as many arguments as it has parameters, and
each argument meets the qualifier of its parameter.
-/

namespace LiveSchema
namespace Legality

/-- The live definition of a type. -/
def definitionOf (registry : Registry) (handle : TypeHandle) : Except Error TypeDefinition :=
  match registry.get? handle with
  | some definition => .ok definition
  | none => .error (.invariant (.noType handle))

/-- Why an argument does not fit a parameter.  What lies inside the argument is not looked at. -/
def argumentViolation? (registry : Registry) (argument : TemplateArgument)
    (parameter : TemplateParameter) : Option Violation :=
  match argument with
  | .size count =>
    if parameter.qualifier ≠ .size then some (.typeExpected parameter.name count.toNat)
    else if maxArraySize < count.toNat then some (.sizeTooLarge parameter.name count.toNat)
    else none
  | .type reference =>
    if parameter.qualifier = .size then
      some (.sizeExpected parameter.name (registry.render reference))
    else
      match registry.get? reference.handle with
      | none => some (.argumentGone parameter.name)
      | some definition =>
        if registry.satisfies reference.handle parameter.qualifier then none
        else some (.unsuitable parameter.name parameter.qualifier definition.name definition.variant)

mutual

/-- Why a type reference is not legal. -/
def referenceViolation? (registry : Registry) : TypeReference → Option Violation
  | ⟨handle, arguments⟩ =>
    match registry.get? handle with
    | none => some (.typeGone handle)
    | some definition =>
      let expected := definition.parameters.length
      if arguments.length < expected then
        some (.tooFewArguments definition.name expected arguments.length)
      else argumentsViolation? registry definition arguments.length 0 arguments

/-- Why the arguments from position `index` on are not legal; `given` is the number of all. -/
def argumentsViolation? (registry : Registry) (definition : TypeDefinition) (given index : Nat) :
    List TemplateArgument → Option Violation
  | [] => none
  | argument :: rest =>
    match definition.parameterFor? index with
    | none => some (.tooManyArguments definition.name definition.parameters.length given)
    | some parameter =>
      match argumentViolation? registry argument parameter with
      | some violation => some violation
      | none =>
        match insideViolation? registry argument with
        | some violation => some violation
        | none => argumentsViolation? registry definition given (index + 1) rest

/-- Why what lies inside an argument is not legal. -/
def insideViolation? (registry : Registry) : TemplateArgument → Option Violation
  | .size _ => none
  | .type inner => referenceViolation? registry inner

end

/-- Refuses an argument that does not fit a parameter. -/
def checkArgument (registry : Registry) (argument : TemplateArgument)
    (parameter : TemplateParameter) : Except Error Unit :=
  match argumentViolation? registry argument parameter with
  | some violation => refuse violation
  | none => .ok ()

/-- Refuses a type reference that is not legal. -/
def checkReference (registry : Registry) (reference : TypeReference) : Except Error Unit :=
  match referenceViolation? registry reference with
  | some violation => refuse violation
  | none => .ok ()

/-- Refuses a type whose default value would be too large to build. -/
def checkDefaultSize (registry : Registry) (reference : TypeReference) : Except Error Unit :=
  if maxDefaultValues < registry.defaultSize reference then
    refuse (.defaultTooLarge (registry.render reference))
  else .ok ()

end Legality
end LiveSchema
