import LiveSchema.Schema.Hierarchy
import LiveSchema.Schema.Unvisited

/-!
# The order of emission

Sources are generated type by type.  A type comes after everything it needs to be fully defined: its
base type, the types of its own fields, and what their arguments need complete.  Types behind pointers
may come later, so that types may refer to each other.
-/

namespace LiveSchema
namespace Registry

mutual

/-- Adds the types that a type reference needs complete to those found before, each once. -/
def collectRequired (registry : Registry) (found : List TypeHandle) :
    TypeReference → List TypeHandle
  | ⟨handle, arguments⟩ =>
    let found := if handle ∈ found then found else found ++ [handle]
    match registry.get? handle with
    | none => found
    | some definition => registry.collectArguments definition 0 found arguments

/-- Adds what the arguments from position `index` on need complete. -/
def collectArguments (registry : Registry) (definition : TypeDefinition) (index : Nat)
    (found : List TypeHandle) : List TemplateArgument → List TypeHandle
  | [] => found
  | .size _ :: rest => registry.collectArguments definition (index + 1) found rest
  | .type inner :: rest =>
    if definition.needsComplete index then
      registry.collectArguments definition (index + 1) (registry.collectRequired found inner) rest
    else registry.collectArguments definition (index + 1) found rest

end

/-- The types that must be fully defined before a type can be. -/
def requiredDependencies (registry : Registry) (handle : TypeHandle) : List TypeHandle :=
  match registry.get? handle with
  | none => []
  | some definition =>
    let ofBase := match definition.base with
      | some base => registry.collectRequired [] base
      | none => []
    (registry.ownFields handle).foldl
      (fun found field => registry.collectRequired found field.type) ofBase

/-! ## Ordering -/

/-- What is still to be done: to place a type with its dependencies, or the type alone. -/
inductive Placing where
  | visit (handle : TypeHandle)
  | emit (handle : TypeHandle)

/-- Works off what is to be done.  A type is closed before its dependencies are placed, so that a
circle of dependencies ends where it began. -/
def placeFrom (registry : Registry) (wanted closed ordered : List TypeHandle)
    (stack : List Placing) : List TypeHandle :=
  match stack with
  | [] => ordered
  | .emit handle :: rest => registry.placeFrom wanted closed (ordered ++ [handle]) rest
  | .visit handle :: rest =>
    if fresh : handle ∈ wanted ∧ handle ∉ closed then
      have := unvisited_cons_lt fresh.1 fresh.2
      registry.placeFrom wanted (handle :: closed) ordered
        ((registry.requiredDependencies handle).map .visit ++ .emit handle :: rest)
    else registry.placeFrom wanted closed ordered rest
termination_by (unvisited wanted closed, stack.length)

/-- The given types, each after those it requires; types that are independent keep their order. -/
def order (registry : Registry) (types : List TypeHandle) : List TypeHandle :=
  registry.placeFrom types [] [] (types.map .visit)

/-- The user types in the order of emission. -/
def emissionOrder (registry : Registry) : List TypeHandle :=
  registry.order registry.userTypes

end Registry
end LiveSchema
