import LiveSchema.Schema.Registry
import LiveSchema.Text.Digits
import LiveSchema.TypeText.Token

/-!
# Reading type references

A type reference is an identifier, optionally followed by arguments in angle brackets; an argument is
a type reference or a size.  Reading goes in two steps: the tokens are put into a tree of names, and
the names of the tree are looked up, from left to right.

A text that is no type reference is reported at the farthest place where one of the parts
`identifier`, `size`, `arguments` or the end of the text was looked for in vain.
-/

namespace LiveSchema
namespace TypeText

/-! ## Failures -/

/-- A part of the grammar that a reader may look for. -/
inductive Part where
  | endOfText
  | identifier
  | size
  | arguments
deriving DecidableEq, Repr

namespace Part

/-- The name of a part in messages. -/
def name : Part → String
  | endOfText => "EOI"
  | identifier => "identifier"
  | size => "size"
  | arguments => "arguments"

/-- The parts in the order of messages. -/
def all : List Part :=
  [endOfText, identifier, size, arguments]

end Part

/-- The parts that were looked for in vain at one place. -/
structure Miss where
  offset : Nat
  parts : List Part
deriving DecidableEq, Repr

namespace Miss

/-- Adds a part that was looked for in vain.  Only the farthest place counts. -/
def add (miss : Miss) (offset : Nat) (part : Part) : Miss :=
  if offset < miss.offset then miss
  else if offset = miss.offset then ⟨offset, part :: miss.parts⟩
  else ⟨offset, [part]⟩

/-- What was expected, in words. -/
def message (miss : Miss) : String :=
  let names := (Part.all.filter fun part => miss.parts.contains part).map Part.name
  "expected " ++ match names.reverse with
    | [] => "nothing"
    | [name] => name
    | [second, first] => first ++ " or " ++ second
    | last :: before => ", ".intercalate before.reverse ++ ", or " ++ last

end Miss

/-- Why a text is no type reference of a registry. -/
inductive Fault where
  | unexpected (miss : Miss)
  | unknownType (name : String)
  | sizeTooLarge (digits : String)
deriving DecidableEq, Repr

namespace Fault

def message : Fault → String
  | unexpected miss => miss.message
  | unknownType name => "unknown type '" ++ name ++ "'"
  | sizeTooLarge digits =>
    "invalid size '" ++ digits ++ "': number too large to fit in target type"

end Fault

/-- A fault and the byte offset it is reported at. -/
structure ParseError where
  offset : Nat
  fault : Fault
deriving DecidableEq, Repr

namespace ParseError

def message (error : ParseError) : String :=
  "Parse error at " ++ Nat.repr error.offset ++ ": " ++ error.fault.message

end ParseError

/-! ## Trees of names -/

mutual

/-- A type reference as spelled. -/
structure Tree where
  offset : Nat
  name : List Char
  arguments : List TreeArgument
deriving Repr

/-- An argument as spelled. -/
inductive TreeArgument where
  | size (offset : Nat) (digits : List Char)
  | type (tree : Tree)
deriving Repr

end

/-- Where the next token starts, in a text of the given length. -/
def nextOffset (length : Nat) : List Placed → Nat
  | [] => length
  | placed :: _ => placed.offset

/-- A part of the text that was read: its meaning, the misses so far, and the tokens behind it, of
which there are fewer than before. -/
structure Found (α : Type) (tokens : List Placed) where
  value : α
  miss : Miss
  rest : List Placed
  shorter : rest.length < tokens.length

mutual

/-- Reads a type reference. -/
def readTree (length : Nat) (miss : Miss) (tokens : List Placed) :
    Except Miss (Found Tree tokens) :=
  match tokens with
  | ⟨.identifier name, offset⟩ :: ⟨.opening, _⟩ :: rest => do
    let arguments ← readArguments length miss [] rest
    return ⟨⟨offset, name, arguments.value⟩, arguments.miss, arguments.rest, by
      have := arguments.shorter
      simp only [List.length_cons]
      omega⟩
  | ⟨.identifier name, offset⟩ :: rest =>
    return ⟨⟨offset, name, []⟩, miss.add (nextOffset length rest) .arguments, rest, by simp⟩
  | tokens => throw (miss.add (nextOffset length tokens) .identifier)
termination_by (tokens.length, 0)

/-- Reads arguments up to the closing bracket; `done` holds those before, last first. -/
def readArguments (length : Nat) (miss : Miss) (done : List TreeArgument) (tokens : List Placed) :
    Except Miss (Found (List TreeArgument) tokens) :=
  match tokens with
  | ⟨.identifier name, offset⟩ :: following => do
    let tree ← readTree length miss (⟨.identifier name, offset⟩ :: following)
    have shorter := tree.shorter
    match behind : tree.rest with
    | ⟨.comma, _⟩ :: rest =>
      have closer : rest.length < following.length := by
        simp only [behind, List.length_cons] at shorter
        omega
      let further ← readArguments length tree.miss (.type tree.value :: done) rest
      return ⟨further.value, further.miss, further.rest, by
        have := further.shorter
        simp only [List.length_cons]
        omega⟩
    | ⟨.closing, _⟩ :: rest =>
      return ⟨(.type tree.value :: done).reverse, tree.miss, rest, by
        simp only [behind, List.length_cons] at shorter ⊢
        omega⟩
    | _ => throw tree.miss
  | ⟨.digits digits, offset⟩ :: following =>
    let miss := miss.add offset .identifier
    match following with
    | ⟨.comma, _⟩ :: rest => do
      let further ← readArguments length miss (.size offset digits :: done) rest
      return ⟨further.value, further.miss, further.rest, by
        have := further.shorter
        simp only [List.length_cons]
        omega⟩
    | ⟨.closing, _⟩ :: rest =>
      return ⟨(.size offset digits :: done).reverse, miss, rest, by simp only [List.length_cons]; omega⟩
    | _ => throw miss
  | tokens =>
    let offset := nextOffset length tokens
    throw ((miss.add offset .identifier).add offset .size)
termination_by (tokens.length, 1)

end

/-- Reads a whole text as a tree of names. -/
def readText (text : String) : Except Miss Tree := do
  let (tokens, length) := scan text
  let tree ← readTree length ⟨0, []⟩ tokens
  match tree.rest with
  | [] => return tree.value
  | next :: _ => throw (tree.miss.add next.offset .endOfText)

/-! ## Looking up the names -/

mutual

/-- The type reference that a tree spells in a registry. -/
def Tree.resolve (registry : Registry) : Tree → Except ParseError TypeReference
  | ⟨offset, name, arguments⟩ =>
    match registry.resolve? (String.ofList name) with
    | none => throw ⟨offset, .unknownType (String.ofList name)⟩
    | some handle => do
      return ⟨handle, ← Tree.resolveArguments registry arguments⟩

/-- The arguments that trees spell in a registry. -/
def Tree.resolveArguments (registry : Registry) :
    List TreeArgument → Except ParseError (List TemplateArgument)
  | [] => return []
  | .size offset digits :: rest => do
    let count := Text.ofDigits digits
    if count < 0x10000000000000000 then
      return .size (UInt64.ofNat count) :: (← Tree.resolveArguments registry rest)
    else throw ⟨offset, .sizeTooLarge (String.ofList digits)⟩
  | .type tree :: rest => do
    let reference ← tree.resolve registry
    return .type reference :: (← Tree.resolveArguments registry rest)

end

/-- The type reference that a text spells in a registry. -/
def parse (registry : Registry) (text : String) : Except ParseError TypeReference :=
  match readText text with
  | .error miss => throw ⟨miss.offset, .unexpected miss⟩
  | .ok tree => tree.resolve registry

end TypeText
end LiveSchema
