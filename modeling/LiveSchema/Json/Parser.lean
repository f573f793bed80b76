import LiveSchema.Json.Draft

/-!
# Reading JSON

`Draft.read?` reads a whole text as a draft; it refuses only what is not well formed.  `Json.parse?`
reads a whole text as a value.  Containers of values lie inside one another up to a given depth.
-/

namespace LiveSchema
namespace Json

/-- How many containers a document may hold inside one another. -/
def documentDepth : Nat := 127

/-- The blanks between the tokens of a document. -/
def isSpace (c : Char) : Bool :=
  c = ' ' || c = '\n' || c = '\t' || c = '\r'

def skipSpaces (text : List Char) : List Char :=
  text.dropWhile isSpace

/-! ## Strings -/

/-- The four hexadecimal digits at the start of a text. -/
def readUnit? : List Char → Option (Nat × List Char)
  | a :: b :: c :: d :: rest => do
    return (← Text.hexadecimal? [a, b, c, d], rest)
  | _ => none

/-- The character that an escape with a code unit stands for, if the unit is a character; two units
may form one. -/
def readCodePoint? (text : List Char) : Option (Option Char × List Char) := do
  let (unit, rest) ← readUnit? text
  if 0xD800 ≤ unit ∧ unit < 0xDC00 then
    match rest with
    | '\\' :: 'u' :: more =>
      let (second, more) ← readUnit? more
      if 0xDC00 ≤ second ∧ second < 0xE000 then
        some (some (Char.ofNat (0x10000 + (unit - 0xD800) * 0x400 + (second - 0xDC00))), more)
      else some (none, rest)
    | _ => some (none, rest)
  else if 0xDC00 ≤ unit ∧ unit < 0xE000 then some (none, rest)
  else some (some (Char.ofNat unit), rest)

/-- The character an escape stands for, if there is one, read behind its backslash. -/
def readEscape? : List Char → Option (Option Char × List Char)
  | '"' :: rest => some (some '"', rest)
  | '\\' :: rest => some (some '\\', rest)
  | '/' :: rest => some (some '/', rest)
  | 'b' :: rest => some (some '\x08', rest)
  | 'f' :: rest => some (some '\x0c', rest)
  | 'n' :: rest => some (some '\n', rest)
  | 'r' :: rest => some (some '\r', rest)
  | 't' :: rest => some (some '\t', rest)
  | 'u' :: rest => readCodePoint? rest
  | _ => none

/-- The rest of a string, read behind its opening mark; `done` holds the characters before, last
first, unless there was half of one among them. -/
def readString? (fuel : Nat) (done : Option (List Char)) (text : List Char) :
    Option (Option String × List Char) :=
  match fuel, text with
  | 0, _ => none
  | _, [] => none
  | _ + 1, '"' :: rest => some (done.map fun done => String.ofList done.reverse, rest)
  | fuel + 1, '\\' :: rest => do
    let (c, rest) ← readEscape? rest
    readString? fuel (do return (← c) :: (← done)) rest
  | fuel + 1, c :: rest =>
    if c.toNat < 32 then none else readString? fuel (done.map fun done => c :: done) rest

/-! ## Numbers -/

/-- The digits of the whole part: a single zero, or digits that do not start with one. -/
def readWhole? : List Char → Option (List Char × List Char)
  | '0' :: rest =>
    match rest with
    | c :: _ => if c.isDigit then none else some (['0'], rest)
    | [] => some (['0'], rest)
  | text =>
    let digits := text.takeWhile Char.isDigit
    if digits = [] then none else some (digits, text.dropWhile Char.isDigit)

/-- The digits behind a point, none if there is no point. -/
def readFraction? : List Char → Option (List Char × List Char)
  | '.' :: rest =>
    let digits := rest.takeWhile Char.isDigit
    if digits = [] then none else some (digits, rest.dropWhile Char.isDigit)
  | text => some ([], text)

/-- The exponent behind its mark, if there is a mark. -/
def readExponent? : List Char → Option (Option Int × List Char)
  | mark :: rest =>
    if mark = 'e' ∨ mark = 'E' then
      let (negative, rest) := Reading.sign rest
      let digits := rest.takeWhile Char.isDigit
      let magnitude : Int := Text.ofDigits digits
      if digits = [] then none
      else some (some (if negative then -magnitude else magnitude), rest.dropWhile Char.isDigit)
    else some (none, mark :: rest)
  | [] => some (none, [])

/-- The number that is not an integer, or an integer that does not fit. -/
def floatDraft (negative : Bool) (coefficient : Nat) (exponent : Int) : Draft :=
  match Binary64.ofDecimal? negative coefficient exponent with
  | some value => .number (.float value)
  | none => .unreadable

/-- The number that its parts spell.  A negative zero is a floating-point number. -/
def numberDraft (negative : Bool) (whole fraction : List Char) (exponent : Option Int) : Draft :=
  let magnitude : Int := Text.ofDigits whole
  let value := if negative then -magnitude else magnitude
  let integral := fraction = [] ∧ exponent = none ∧ ¬(negative ∧ value = 0)
  if fits : integral ∧ IsDocumentInteger value then .number (.integer value fits.2)
  else floatDraft negative (Text.ofDigits (whole ++ fraction)) (exponent.getD 0 - fraction.length)

/-- The number of an unsigned text. -/
def readNumber? (negative : Bool) (text : List Char) : Option (Draft × List Char) := do
  let (whole, rest) ← readWhole? text
  let (fraction, rest) ← readFraction? rest
  let (exponent, rest) ← readExponent? rest
  return (numberDraft negative whole fraction exponent, rest)

/-! ## Values -/

/-- The text behind a word, if the text starts with it. -/
def afterWord? (word : String) (text : List Char) : Option (List Char) :=
  if word.toList.isPrefixOf text then some (text.drop word.length) else none

mutual

/-- Reads a draft of which at most `depth` containers inside one another are values.  Each call takes
at least one character or gives way to a reader of items, so twice the length of the text is fuel
enough. -/
def readDraft? (fuel depth : Nat) (text : List Char) : Option (Draft × List Char) :=
  match fuel, skipSpaces text with
  | 0, _ => none
  | fuel + 1, '[' :: rest => do
    let (draft, rest) ← match skipSpaces rest with
      | ']' :: rest => some (.array [], rest)
      | rest => readItems? fuel (depth - 1) [] rest
    return (draft.within depth, rest)
  | fuel + 1, '\x7b' :: rest => do
    let (draft, rest) ← match skipSpaces rest with
      | '\x7d' :: rest => some (.object [], rest)
      | rest => readEntries? fuel (depth - 1) (some []) rest
    return (draft.within depth, rest)
  | fuel + 1, '"' :: rest =>
    (readString? (fuel + 1) (some []) rest).map fun (text, rest) =>
      ((text.map Draft.string).getD .unreadable, rest)
  | _ + 1, '-' :: rest => readNumber? true rest
  | _ + 1, 'n' :: rest => (afterWord? "ull" rest).map fun rest => (.null, rest)
  | _ + 1, 't' :: rest => (afterWord? "rue" rest).map fun rest => (.bool true, rest)
  | _ + 1, 'f' :: rest => (afterWord? "alse" rest).map fun rest => (.bool false, rest)
  | _ + 1, rest => readNumber? false rest

/-- Reads the items of an array up to its closing bracket; `done` holds those before, last first. -/
def readItems? (fuel depth : Nat) (done : List Draft) (text : List Char) :
    Option (Draft × List Char) :=
  match fuel with
  | 0 => none
  | fuel + 1 => do
    let (item, rest) ← readDraft? fuel depth text
    match skipSpaces rest with
    | ',' :: rest => readItems? fuel depth (item :: done) rest
    | ']' :: rest => some (.array (item :: done).reverse, rest)
    | _ => none

/-- Reads the entries of an object up to its closing brace; `done` holds those before, last first,
unless there was half of a character in one of their keys. -/
def readEntries? (fuel depth : Nat) (done : Option (List (String × Draft))) (text : List Char) :
    Option (Draft × List Char) :=
  match fuel, skipSpaces text with
  | fuel + 1, '"' :: rest => do
    let (key, rest) ← readString? (fuel + 1) (some []) rest
    match skipSpaces rest with
    | ':' :: rest =>
      let (value, rest) ← readDraft? fuel depth rest
      let done := do return (← key, value) :: (← done)
      match skipSpaces rest with
      | ',' :: rest => readEntries? fuel depth done rest
      | '\x7d' :: rest =>
        some ((done.map fun done => Draft.object done.reverse).getD .unreadable, rest)
      | _ => none
    | _ => none
  | _, _ => none

end

end Json

namespace Draft

/-- What a whole text spells. -/
def readWithin? (depth : Nat) (text : String) : Option Draft :=
  let characters := text.toList
  match Json.readDraft? (2 * characters.length + 2) depth characters with
  | some (draft, rest) => if Json.skipSpaces rest = [] then some draft else none
  | none => none

/-- What a document spells. -/
def read? (text : String) : Option Draft :=
  readWithin? Json.documentDepth text

end Draft

namespace Json

/-- The value that a document spells. -/
def parse? (text : String) : Option Json :=
  (Draft.read? text).bind Draft.toJson?

end Json
end LiveSchema
