import LiveSchema.Error

/-!
# Legal names

Names of types, fields, enumerators, stores and roots end up in generated sources.  They are
identifiers of ASCII letters, digits and underscores, and none of the keywords of the languages that
are generated.
-/

namespace LiveSchema
namespace Legality

/-- The words that no name may be. -/
def keywords : List String :=
  ["alignas", "alignof", "and", "and_eq", "asm", "auto", "bitand", "bitor", "bool", "break", "case",
    "catch", "char", "char8_t", "char16_t", "char32_t", "class", "compl", "concept", "const",
    "consteval", "constexpr", "constinit", "const_cast", "continue", "co_await", "co_return",
    "co_yield", "decltype", "default", "delete", "do", "double", "dynamic_cast", "else", "enum",
    "explicit", "export", "extern", "false", "float", "for", "friend", "goto", "if", "inline",
    "int", "long", "mutable", "namespace", "new", "noexcept", "not", "not_eq", "nullptr",
    "operator", "or", "or_eq", "private", "protected", "public", "register", "reinterpret_cast",
    "requires", "return", "short", "signed", "sizeof", "static", "static_assert", "static_cast",
    "struct", "switch", "template", "this", "thread_local", "throw", "true", "try", "typedef",
    "typeid", "typename", "union", "unsigned", "using", "virtual", "void", "volatile", "wchar_t",
    "while", "xor", "xor_eq", "abstract", "as", "base", "byte", "checked", "decimal", "delegate",
    "event", "fixed", "foreach", "implicit", "in", "interface", "internal", "is", "lock", "null",
    "object", "out", "override", "params", "readonly", "ref", "sbyte", "sealed", "stackalloc",
    "string", "uint", "ulong", "unchecked", "unsafe", "ushort", "var"]

def isKeyword (name : String) : Bool :=
  keywords.contains name

/-- Whether two underscores follow each other. -/
def hasDoubleUnderscore : List Char → Bool
  | '_' :: '_' :: _ => true
  | _ :: rest => hasDoubleUnderscore rest
  | [] => false

/-- Whether an uppercase letter follows an underscore at the start. -/
def startsReserved : List Char → Bool
  | '_' :: c :: _ => c.isUpper
  | _ => false

/-- The first rule for names that a name breaks. -/
def nameViolation? (name : String) : Option Violation :=
  match name.toList with
  | [] => some .emptyName
  | first :: rest =>
    if !TypeText.startsIdentifier first then some (.nameStart name)
    else if !rest.all TypeText.continuesIdentifier then some (.nameCharacter name)
    else if isKeyword name then some (.keyword name)
    else if hasDoubleUnderscore (first :: rest) then some (.doubleUnderscore name)
    else if startsReserved (first :: rest) then some (.underscoreUppercase name)
    else none

/-- Whether a name is legal. -/
def IsIdentifier (name : String) : Prop :=
  nameViolation? name = none

instance (name : String) : Decidable (IsIdentifier name) :=
  inferInstanceAs (Decidable (_ = _))

/-- Refuses a name that is not legal. -/
def checkIdentifier (name : String) : Except Error Unit :=
  match nameViolation? name with
  | some violation => refuse violation
  | none => .ok ()

end Legality
end LiveSchema
