/-!
# Tokens of type references

The text of a type reference consists of identifiers, runs of digits and the marks `<`, `,` and `>`,
with blanks between them.  Each token carries the byte offset at which it starts.
-/

namespace LiveSchema
namespace TypeText

/-- A piece of the text of a type reference. -/
inductive Token where
  | identifier (name : List Char)
  | digits (digits : List Char)
  | opening
  | comma
  | closing
  /-- A character that starts no other token. -/
  | stray (character : Char)
deriving DecidableEq, Repr

/-- A token and where it starts. -/
structure Placed where
  token : Token
  offset : Nat
deriving DecidableEq, Repr

/-- The letters of ASCII and the underscore. -/
def startsIdentifier (c : Char) : Bool :=
  c.isAlpha || c == '_'

/-- The letters and digits of ASCII and the underscore. -/
def continuesIdentifier (c : Char) : Bool :=
  c.isAlphanum || c == '_'

/-- The characters allowed between tokens. -/
def isGap (c : Char) : Bool :=
  c == ' ' || c == '\t' || c == '\r' || c == '\n'

/-- Cuts a text into tokens, the first character of the text standing at the byte `offset`.  The last
part of the answer is the length of the whole text.  An identifier and a run of digits are as long as
possible. -/
def scanFrom (offset : Nat) (text : List Char) : List Placed × Nat :=
  match text with
  | [] => ([], offset)
  | c :: rest =>
    if isGap c then scanFrom (offset + c.utf8Size) rest
    else if startsIdentifier c then
      let name := c :: rest.takeWhile continuesIdentifier
      let (tokens, length) := scanFrom (offset + name.length) (rest.dropWhile continuesIdentifier)
      (⟨.identifier name, offset⟩ :: tokens, length)
    else if c.isDigit then
      let digits := c :: rest.takeWhile Char.isDigit
      let (tokens, length) := scanFrom (offset + digits.length) (rest.dropWhile Char.isDigit)
      (⟨.digits digits, offset⟩ :: tokens, length)
    else
      let token : Token :=
        if c == '<' then .opening else if c == ',' then .comma else if c == '>' then .closing
        else .stray c
      let (tokens, length) := scanFrom (offset + c.utf8Size) rest
      (⟨token, offset⟩ :: tokens, length)
termination_by text.length
decreasing_by
  · simp
  · exact Nat.lt_succ_of_le (List.dropWhile_sublist _).length_le
  · exact Nat.lt_succ_of_le (List.dropWhile_sublist _).length_le
  · simp

/-- The tokens of a text and its length in bytes. -/
def scan (text : String) : List Placed × Nat :=
  scanFrom 0 text.toList

end TypeText
end LiveSchema
