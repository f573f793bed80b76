import LiveSchema.Schema.Registry

/-!
# Writing type references

The text of a type reference is the name of its type, followed by its arguments in angle brackets if
there are any, as in `map<string,array<i32,4>>`.
-/

namespace LiveSchema
namespace Registry

mutual

/-- The text of a type reference. -/
def render (registry : Registry) : TypeReference → String
  | ⟨handle, []⟩ => registry.nameOf handle
  | ⟨handle, first :: rest⟩ =>
    registry.nameOf handle ++ "<" ++ registry.renderArgument first ++
      registry.renderFurther rest ++ ">"

/-- The text of an argument. -/
def renderArgument (registry : Registry) : TemplateArgument → String
  | .size count => Nat.repr count.toNat
  | .type reference => registry.render reference

/-- The texts of further arguments, a comma before each. -/
def renderFurther (registry : Registry) : List TemplateArgument → String
  | [] => ""
  | argument :: rest => "," ++ registry.renderArgument argument ++ registry.renderFurther rest

end

end Registry
end LiveSchema
