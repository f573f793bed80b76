import LiveSchema.TypeText.Parser

/-!
# Errors

Every reason for which a schema, its data or its files are refused, and the wording of each.  Refusals
that the user can mend by another input are kept apart from damage to files and from broken
invariants.
-/

namespace LiveSchema

/-- The most elements that an array type may declare. -/
def maxArraySize : Nat := 0x10000

/-- The most values that the default of one type may consist of. -/
def maxDefaultValues : Nat := 0x100000

/-- What only the fields of classes may have. -/
inductive ClassPrivilege where
  | privateAccess
  | getter
  | setter
deriving DecidableEq, Repr

namespace ClassPrivilege

def name : ClassPrivilege → String
  | privateAccess => "private access"
  | getter => "a getter"
  | setter => "a setter"

end ClassPrivilege

/-- What only private fields may have. -/
inductive Accessor where
  | getter
  | setter
deriving DecidableEq, Repr

namespace Accessor

def name : Accessor → String
  | getter => "getter"
  | setter => "setter"

end Accessor

/-- A field that would hide an inherited one. -/
structure Shadowing where
  owner : String
  field : String
  inheritedFrom : String
deriving DecidableEq, Repr

namespace Shadowing

def message (shadowing : Shadowing) : String :=
  "  " ++ shadowing.owner ++ "." ++ shadowing.field ++ " would shadow " ++
    shadowing.inheritedFrom ++ "." ++ shadowing.field

end Shadowing

/-! ## Illegal changes -/

/-- Why a change of the schema or of stored data is not legal.  Types, fields and stores appear by
their names. -/
inductive Violation where
  -- names
  | emptyName
  | nameStart (name : String)
  | nameCharacter (name : String)
  | keyword (name : String)
  | doubleUnderscore (name : String)
  | underscoreUppercase (name : String)
  | builtinName (name : String)
  | typeExists (name : String)
  | fieldExists (record field : String)
  | fieldInherited (record field owner : String)
  | fieldInDescendant (descendant record field : String)
  | fieldDeclared (record field : String)
  | enumeratorExists (enumeration enumerator : String)
  -- type references
  | sizeTooLarge (parameter : String) (count : Nat)
  | sizeExpected (parameter type : String)
  | typeExpected (parameter : String) (count : Nat)
  | argumentGone (parameter : String)
  | unsuitable (parameter : String) (qualifier : Qualifier) (type : String) (variant : TypeVariant)
  | typeGone (handle : TypeHandle)
  | tooFewArguments (type : String) (expected given : Nat)
  | tooManyArguments (type : String) (expected given : Nat)
  | defaultTooLarge (type : String)
  -- records
  | notRecord (type : String) (variant : TypeVariant)
  | baseGone
  | baseVariant (variant : TypeVariant) (record : String) (ofBase : TypeVariant) (base : String)
  | ownAncestor (record base : String)
  | shadowed (record base : String) (fields : List Shadowing)
  | baseContains (record base offender : String)
  | noBase (record : String)
  | notDerived (descendant ancestor : String)
  | fieldTypeMissing
  | containsItself (type record offender : String)
  | noField (record field : String)
  | noFieldAt (record : String) (position : Nat)
  -- enumerations
  | notEnumeration (type : String)
  | noEnumeratorAt (enumeration : String) (position : Nat)
  -- flags
  | classOnly (privilege : ClassPrivilege)
  | privateOnly (accessor : Accessor)
  | tableOnly
  | scalarOnly (type : String)
  | tableOfClass
  | inField (field : String) (violation : Violation)
  -- types and stores
  | builtinType (type : String)
  | storeExists (store : String)
  | noStore (store : String)
  | rootExists (store root : String)
  | noRoot (store root : String)
  | misfit (type : String)
deriving DecidableEq, Repr

namespace Violation

/-- Why a type does not meet a qualifier. -/
def unsuitableReason (qualifier : Qualifier) (type : String) (variant : TypeVariant) : String :=
  match qualifier with
  | .structType => "requires a struct, but '" ++ type ++ "' is a " ++ variant.display
  | .classType => "requires a class, but '" ++ type ++ "' is a " ++ variant.display
  | .enumType => "requires an enum, but '" ++ type ++ "' is a " ++ variant.display
  | .notClass => "does not accept classes, but '" ++ type ++ "' is a class"
  | .integral => "requires an integral type, but '" ++ type ++ "' is not one"
  | .floating => "requires a floating point type, but '" ++ type ++ "' is not one"
  | .pointer => "requires ref<> or own<>, but got '" ++ type ++ "'"
  | .scalar =>
    "requires a number, bool, string or enum, but '" ++ type ++ "' is a " ++ variant.display
  | .anyType | .size => "does not accept '" ++ type ++ "'"

def message : Violation → String
  | emptyName => "A name cannot be empty"
  | nameStart name => "'" ++ name ++ "' must start with a letter or an underscore"
  | nameCharacter name => "'" ++ name ++ "' may only contain letters, digits and underscores"
  | keyword name => "'" ++ name ++ "' is a reserved keyword"
  | doubleUnderscore name => "'" ++ name ++ "' cannot contain a double underscore"
  | underscoreUppercase name =>
    "'" ++ name ++ "' cannot start with an underscore followed by an uppercase letter"
  | builtinName name => "'" ++ name ++ "' is the name of a built-in type"
  | typeExists name => "A type named '" ++ name ++ "' already exists"
  | fieldExists record field => "'" ++ record ++ "' already has a field named '" ++ field ++ "'"
  | fieldInherited record field owner =>
    "'" ++ record ++ "' already inherits a field named '" ++ field ++ "' from '" ++ owner ++ "'"
  | fieldInDescendant descendant record field =>
    "'" ++ descendant ++ "' derives from '" ++ record ++ "' and already has a field named '" ++
      field ++ "'"
  | fieldDeclared record field =>
    "'" ++ record ++ "' already declares a field named '" ++ field ++ "'"
  | enumeratorExists enumeration enumerator =>
    "'" ++ enumeration ++ "' already has an enumerator named '" ++ enumerator ++ "'"
  | sizeTooLarge parameter count =>
    "Parameter " ++ parameter ++ " is " ++ Nat.repr count ++ ", but at most " ++
      Nat.repr maxArraySize ++ " is allowed"
  | sizeExpected parameter type =>
    "Parameter " ++ parameter ++ " expects a size, but got the type '" ++ type ++ "'"
  | typeExpected parameter count =>
    "Parameter " ++ parameter ++ " expects a type, but got the number " ++ Nat.repr count
  | argumentGone parameter => "Parameter " ++ parameter ++ " refers to a type that no longer exists"
  | unsuitable parameter qualifier type variant =>
    "Parameter " ++ parameter ++ " " ++ unsuitableReason qualifier type variant
  | typeGone handle => "Type " ++ handle.render ++ " no longer exists"
  | tooFewArguments type expected given =>
    "'" ++ type ++ "' expects " ++ Nat.repr expected ++ " template argument(s), but " ++
      Nat.repr given ++ " were given"
  | tooManyArguments type expected given =>
    "'" ++ type ++ "' takes at most " ++ Nat.repr expected ++ " template argument(s), but " ++
      Nat.repr given ++ " were given"
  | defaultTooLarge type =>
    "'" ++ type ++ "' would hold more than " ++ Nat.repr maxDefaultValues ++ " values"
  | notRecord type variant =>
    "'" ++ type ++ "' is a " ++ variant.display ++ ", not a struct or class"
  | baseGone => "The base type no longer exists"
  | baseVariant variant record ofBase base =>
    "The " ++ variant.display ++ " '" ++ record ++ "' cannot derive from the " ++ ofBase.display ++
      " '" ++ base ++ "'"
  | ownAncestor record base =>
    "'" ++ record ++ "' cannot derive from '" ++ base ++ "': it would become its own ancestor"
  | shadowed record base fields =>
    "'" ++ record ++ "' cannot derive from '" ++ base ++ "':\n" ++
      "\n".intercalate (fields.map Shadowing.message)
  | baseContains record base offender =>
    "'" ++ record ++ "' cannot derive from '" ++ base ++ "': it would contain '" ++ offender ++
      "' itself"
  | noBase record => "'" ++ record ++ "' has no base type"
  | notDerived descendant ancestor =>
    "'" ++ descendant ++ "' does not derive from '" ++ ancestor ++ "'"
  | fieldTypeMissing => "A field needs a type"
  | containsItself type record offender =>
    "'" ++ type ++ "' cannot be stored by value in '" ++ record ++ "': it would contain '" ++
      offender ++ "' itself. Use ref<> or own<> instead"
  | noField record field => "'" ++ record ++ "' declares no field named '" ++ field ++ "'"
  | noFieldAt record position => "'" ++ record ++ "' has no field at position " ++ Nat.repr position
  | notEnumeration type => "'" ++ type ++ "' is not an enum"
  | noEnumeratorAt enumeration position =>
    "'" ++ enumeration ++ "' has no enumerator at position " ++ Nat.repr position
  | classOnly privilege => "Only class fields can have " ++ privilege.name
  | privateOnly accessor => "A " ++ accessor.name ++ " only makes sense on a private field"
  | tableOnly => "Only fields of table structs can be unique or indexed"
  | scalarOnly type =>
    "Unique and indexed fields need a scalar type, but '" ++ type ++ "' is not one"
  | tableOfClass => "Only structs can be stored as tables"
  | inField field violation => "Field '" ++ field ++ "': " ++ violation.message
  | builtinType type => "'" ++ type ++ "' is a built-in type and cannot be changed"
  | storeExists store => "A store named '" ++ store ++ "' already exists"
  | noStore store => "There is no store named '" ++ store ++ "'"
  | rootExists store root => "Store '" ++ store ++ "' already has a root named '" ++ root ++ "'"
  | noRoot store root => "Store '" ++ store ++ "' has no root named '" ++ root ++ "'"
  | misfit type => "The value does not fit type '" ++ type ++ "'"

end Violation

/-! ## Broken invariants -/

/-- A state that legal changes never lead to, or a handle whose type was deleted. -/
inductive Breach where
  | noType (handle : TypeHandle)
  | notRecord (type : String)
  | nameTaken (name : String)
  | noRecord (handle : TypeHandle)
  | notEnumeration (type : String)
  | noEnumeration (handle : TypeHandle)
  | rootVanished (root : String)
deriving DecidableEq, Repr

namespace Breach

def message : Breach → String
  | noType handle => "no type is kept for handle " ++ handle.render
  | notRecord type => "'" ++ type ++ "' is not a record"
  | nameTaken name => "a type named '" ++ name ++ "' is already kept"
  | noRecord handle => "type " ++ handle.render ++ " is not a record"
  | notEnumeration type => "'" ++ type ++ "' is not an enum"
  | noEnumeration handle => "type " ++ handle.render ++ " is not an enum"
  | rootVanished root => "root '" ++ root ++ "' vanished"

end Breach

/-! ## Damaged files -/

/-- Why the files of a project cannot be restored. -/
inductive Damage where
  | unreadable (path : String)
  | schemaVersion (found supported : Nat)
  | builtinDeclared (type : String)
  | nameTaken (type : String)
  | noDescription (type : String)
  | unresolved (text owner : String) (cause : TypeText.ParseError)
  | illegal (text owner : String) (cause : Violation)
  | storeFormat (store found expected : String)
  | storeSchema (store found expected : String)
  | unreadableLine (number : Nat)
  | brokenChain (number : Nat)
deriving DecidableEq, Repr

/-- How broken invariants are introduced in messages. -/
def breachIntroduction : String := "Internal invariant violated: "

namespace Damage

def message : Damage → String
  | unreadable path => "'" ++ path ++ "' is unreadable"
  | schemaVersion found supported =>
    "schema version " ++ Nat.repr found ++ " is not supported, expected " ++ Nat.repr supported
  | builtinDeclared type => "'" ++ type ++ "' is declared as a built-in type"
  | nameTaken type =>
    "type '" ++ type ++ "' cannot be restored: " ++ breachIntroduction ++
      (Breach.nameTaken type).message
  | noDescription type => "type '" ++ type ++ "' has no description"
  | unresolved text owner cause =>
    "'" ++ text ++ "' in '" ++ owner ++ "' does not resolve: " ++ cause.message
  | illegal text owner cause => "'" ++ text ++ "' in '" ++ owner ++ "' is not legal: " ++ cause.message
  | storeFormat store found expected =>
    "store '" ++ store ++ "' has format '" ++ found ++ "', expected '" ++ expected ++ "'"
  | storeSchema store found expected =>
    "store '" ++ store ++ "' belongs to schema '" ++ found ++ "', not '" ++ expected ++ "'"
  | unreadableLine number => "change log line " ++ Nat.repr number ++ " is unreadable"
  | brokenChain number => "change log chain is broken at line " ++ Nat.repr number

end Damage

/-! ## All errors -/

/-- Why an operation failed. -/
inductive Error where
  /-- A text is no type reference. -/
  | parse (error : TypeText.ParseError)
  /-- A change is not legal. -/
  | invalid (violation : Violation)
  /-- A type cannot be deleted; the usages that prevent it, in words. -/
  | usageConflict (type : String) (usages : List String)
  /-- An invariant does not hold. -/
  | invariant (breach : Breach)
  /-- The files of a project are damaged. -/
  | corruption (damage : Damage)
  /-- A file cannot be read or written. -/
  | persistence (path : String)
  /-- The settings cannot be used. -/
  | config
deriving DecidableEq, Repr

namespace Error

def message : Error → String
  | parse error => error.message
  | invalid violation => violation.message
  | usageConflict type usages =>
    "Cannot delete type '" ++ type ++ "':\n" ++ "\n".intercalate usages
  | invariant breach => breachIntroduction ++ breach.message
  | corruption damage => "Data corruption: " ++ damage.message
  | persistence path => "Persistence error: cannot access '" ++ path ++ "'"
  | config => "Config error: the settings cannot be used"

/-- Whether the user can mend the error by another input. -/
def isRecoverable : Error → Bool
  | parse _ | invalid _ | usageConflict _ _ => true
  | invariant _ | corruption _ | persistence _ | config => false

end Error

/-- Refuses a change. -/
def refuse {α : Type u} (violation : Violation) : Except Error α :=
  .error (.invalid violation)

end LiveSchema
