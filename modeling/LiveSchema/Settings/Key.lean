import LiveSchema.Numeric.Reading

/-!
# Keys of settings

A key of a source of settings may lead into the value of a setting, by dots and by positions in
brackets, as in `servers[0].name`.  A text that is no such path is the name of a setting as it stands.
-/

namespace LiveSchema

/-- What a key of a source addresses. -/
structure SettingKey where
  /-- The name of a setting. -/
  name : String
  /-- Whether the key leads into the value of the setting. -/
  isInner : Bool
deriving DecidableEq, Repr

namespace SettingKey

/-- Whether a character may stand in a name within a path. -/
def isNameCharacter (c : Char) : Bool :=
  c.isAlphanum || c = '_' || c = '-'

def isSpace (c : Char) : Bool :=
  c = ' ' || c = '\t'

/-- Whether a text in brackets is a position, which may be counted from the end. -/
def isPosition (text : List Char) : Bool :=
  let number := ((text.dropWhile isSpace).reverse.dropWhile isSpace).reverse
  number.head? ≠ some '+' && (Reading.signed64? number).isSome

/-- Whether a text leads on from a name. -/
def isContinuation (fuel : Nat) (text : List Char) : Bool :=
  match fuel, text with
  | 0, _ => false
  | _, [] => true
  | fuel + 1, '.' :: rest =>
    let name := rest.takeWhile isNameCharacter
    name ≠ [] && isContinuation fuel (rest.drop name.length)
  | fuel + 1, '[' :: rest =>
    let position := rest.takeWhile fun c => c ≠ ']'
    position.length < rest.length && isPosition position &&
      isContinuation fuel (rest.drop (position.length + 1))
  | _ + 1, _ => false

/-- What a key addresses. -/
def parse (key : String) : SettingKey :=
  let characters := key.toList
  let name := characters.takeWhile isNameCharacter
  let rest := characters.drop name.length
  if name ≠ [] ∧ isContinuation (rest.length + 1) rest then ⟨String.ofList name, rest ≠ []⟩
  else ⟨key, false⟩

end SettingKey
end LiveSchema
