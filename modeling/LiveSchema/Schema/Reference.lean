/-!
# Type references

A type is addressed by its handle.  A type reference applies a type to arguments, which are sizes or
type references again, as in `map<string,array<i32,4>>`.
-/

namespace LiveSchema

/-- The place of a type among all types that were ever declared. -/
structure TypeHandle where
  index : Nat
deriving DecidableEq, Repr, Inhabited

namespace TypeHandle

def render (handle : TypeHandle) : String :=
  "#" ++ Nat.repr handle.index

end TypeHandle

mutual

/-- A type applied to arguments. -/
structure TypeReference where
  handle : TypeHandle
  arguments : List TemplateArgument
deriving Repr

/-- An argument of a type. -/
inductive TemplateArgument where
  | size (count : UInt64)
  | type (reference : TypeReference)
deriving Repr

end

/-! ## Equality -/

mutual

def TypeReference.decEq : (a b : TypeReference) → Decidable (a = b)
  | ⟨h, as⟩, ⟨k, bs⟩ =>
    if handles : h = k then
      match TemplateArgument.decEqList as bs with
      | isTrue equal => isTrue (by rw [handles, equal])
      | isFalse different => isFalse fun equal => by cases equal; exact different rfl
    else isFalse fun equal => by cases equal; exact handles rfl

def TemplateArgument.decEq : (a b : TemplateArgument) → Decidable (a = b)
  | .size m, .size n =>
    if counts : m = n then isTrue (by rw [counts])
    else isFalse fun equal => by cases equal; exact counts rfl
  | .type r, .type s =>
    match TypeReference.decEq r s with
    | isTrue equal => isTrue (by rw [equal])
    | isFalse different => isFalse fun equal => by cases equal; exact different rfl
  | .size _, .type _ => isFalse nofun
  | .type _, .size _ => isFalse nofun

def TemplateArgument.decEqList : (as bs : List TemplateArgument) → Decidable (as = bs)
  | [], [] => isTrue rfl
  | a :: as, b :: bs =>
    match TemplateArgument.decEq a b, TemplateArgument.decEqList as bs with
    | isTrue heads, isTrue tails => isTrue (by rw [heads, tails])
    | isFalse heads, _ => isFalse fun equal => by cases equal; exact heads rfl
    | _, isFalse tails => isFalse fun equal => by cases equal; exact tails rfl
  | [], _ :: _ => isFalse nofun
  | _ :: _, [] => isFalse nofun

end

instance : DecidableEq TypeReference := TypeReference.decEq

instance : DecidableEq TemplateArgument := TemplateArgument.decEq

namespace TypeReference

/-- The type without arguments. -/
def plain (handle : TypeHandle) : TypeReference :=
  ⟨handle, []⟩

/-- The type at an argument position. -/
def typeArgument? (reference : TypeReference) (index : Nat) : Option TypeReference :=
  match reference.arguments[index]? with
  | some (.type inner) => some inner
  | _ => none

/-- The size at an argument position. -/
def sizeArgument? (reference : TypeReference) (index : Nat) : Option UInt64 :=
  match reference.arguments[index]? with
  | some (.size count) => some count
  | _ => none

theorem sizeOf_lt_of_mem {reference inner : TypeReference}
    (h : TemplateArgument.type inner ∈ reference.arguments) :
    sizeOf inner < sizeOf reference := by
  obtain ⟨handle, arguments⟩ := reference
  have member := List.sizeOf_lt_of_mem h
  simp only [TemplateArgument.type.sizeOf_spec, TypeReference.mk.sizeOf_spec] at member ⊢
  omega

theorem sizeOf_lt_of_typeArgument? {reference inner : TypeReference} {index : Nat}
    (h : reference.typeArgument? index = some inner) : sizeOf inner < sizeOf reference := by
  simp only [typeArgument?] at h
  split at h
  next found =>
    cases h
    exact sizeOf_lt_of_mem (List.mem_of_getElem? found)
  next => exact absurd h nofun

end TypeReference

/-! ## Occurrences of a type -/

mutual

/-- Whether a type is the head of a reference or occurs anywhere among its arguments. -/
def TypeReference.mentions (handle : TypeHandle) : TypeReference → Bool
  | ⟨head, arguments⟩ => head = handle || TemplateArgument.anyMentions handle arguments

/-- Whether a type occurs in one of the arguments. -/
def TemplateArgument.anyMentions (handle : TypeHandle) : List TemplateArgument → Bool
  | [] => false
  | .size _ :: rest => TemplateArgument.anyMentions handle rest
  | .type inner :: rest => inner.mentions handle || TemplateArgument.anyMentions handle rest

end

mutual

/-- The argument positions that lead to each occurrence of a type. -/
def TypeReference.occurrences (handle : TypeHandle) : TypeReference → List (List Nat)
  | ⟨head, arguments⟩ =>
    (if head = handle then [[]] else []) ++ TemplateArgument.occurrencesFrom handle 0 arguments

/-- The paths into arguments of which the first has the given position. -/
def TemplateArgument.occurrencesFrom (handle : TypeHandle) (index : Nat) :
    List TemplateArgument → List (List Nat)
  | [] => []
  | .size _ :: rest => TemplateArgument.occurrencesFrom handle (index + 1) rest
  | .type inner :: rest =>
    (inner.occurrences handle).map (index :: ·) ++
      TemplateArgument.occurrencesFrom handle (index + 1) rest

end

/-! ## Depth -/

mutual

/-- How many references lie inside one another. -/
def TypeReference.depth : TypeReference → Nat
  | ⟨_, arguments⟩ => TemplateArgument.maxDepth arguments + 1

def TemplateArgument.maxDepth : List TemplateArgument → Nat
  | [] => 0
  | .size _ :: rest => TemplateArgument.maxDepth rest
  | .type inner :: rest => max inner.depth (TemplateArgument.maxDepth rest)

end

end LiveSchema
