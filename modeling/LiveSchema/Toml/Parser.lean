import LiveSchema.Toml.Quoted
import LiveSchema.Toml.Scalar

/-!
# Reading TOML

A document is a sequence of lines: entries `key = value`, and headers that say which table the
entries behind them belong to.  `Toml.parse?` answers the entries of the whole document, or nothing
if the text is no document, which is also so if a key or a table is defined twice.  A byte order mark
may stand before the first line.
-/

namespace LiveSchema
namespace Toml

/-- How many arrays and inline tables may lie inside one another. -/
def nestingLimit : Nat := 80

/-- How many parts a dotted key may have. -/
def keyLimit : Nat := 80

/-! ## Keys -/

/-- Whether a character may stand in a key without quotes. -/
def isKeyCharacter (c : Char) : Bool :=
  c.isAlphanum || c = '_' || c = '-'

/-- One part of a dotted key. -/
def readKeyPart? (text : List Char) : Option (String × List Char) :=
  match text with
  | '"' :: _ | '\'' :: _ =>
    (readQuoted? text).map fun (part, rest) => (String.ofList part, rest)
  | _ =>
    let part := text.takeWhile isKeyCharacter
    if part = [] then none else some (String.ofList part, text.drop part.length)

/-- A dotted key of at most `parts` parts behind those before it, with blanks around its parts: the
last part, and all others. -/
def readParts? (parts : Nat) (before : List String) (text : List Char) :
    Option ((List String × String) × List Char) :=
  match parts with
  | 0 => none
  | parts + 1 => do
    let (part, rest) ← readKeyPart? (skipSpaces text)
    match skipSpaces rest with
    | '.' :: rest => readParts? parts (part :: before) rest
    | rest => some ((before.reverse, part), rest)

/-- A dotted key: its last part and those before. -/
def readKey? (text : List Char) : Option ((List String × String) × List Char) :=
  readParts? keyLimit [] text

/-! ## Values -/

/-- The text behind a comment, if there is one. -/
def skipComment? : List Char → Option (List Char)
  | '#' :: rest =>
    let rest := rest.dropWhile isPlain
    if rest = [] ∨ (afterLineEnd? rest).isSome then some rest else none
  | text => some text

/-- The text behind blanks, ends of lines and comments. -/
def skipTrivia? (fuel : Nat) (text : List Char) : Option (List Char) :=
  match fuel with
  | 0 => none
  | fuel + 1 => do
    let rest ← skipComment? (skipBlankLines text)
    if rest.length < text.length then skipTrivia? fuel rest else some rest

/-- Whether a character ends a value without quotes and brackets. -/
def endsScalar (c : Char) : Bool :=
  isSpace c || c = '\n' || c = '\r' || c = ',' || c = ']' || c = '\x7d' || c = '#'

/-- A value without quotes and brackets.  A blank may stand between a date and a time. -/
def readScalar? (text : List Char) : Option (TomlValue × List Char) := do
  let word := text.takeWhile fun c => !endsScalar c
  let rest := text.drop word.length
  let (word, rest) := match readDate? word, rest with
    | some (_, []), ' ' :: c :: more =>
      if c.isDigit then
        let clock := (c :: more).takeWhile fun c => !endsScalar c
        (word ++ ' ' :: clock, (c :: more).drop clock.length)
      else (word, rest)
    | _, _ => (word, rest)
  return (← scalar? word, rest)

mutual

/-- Reads a value that holds at most `depth` arrays and inline tables inside one another. -/
def readValue? (fuel depth : Nat) (text : List Char) : Option (TomlValue × List Char) :=
  match fuel, text with
  | 0, _ => none
  | fuel + 1, '[' :: rest =>
    match depth with
    | 0 => none
    | depth + 1 => readItems? fuel depth [] rest
  | fuel + 1, '\x7b' :: rest =>
    match depth with
    | 0 => none
    | depth + 1 => readEntries? fuel depth [] rest
  | _ + 1, '"' :: _ | _ + 1, '\'' :: _ =>
    (readText? text).map fun (inner, rest) => (.string (String.ofList inner), rest)
  | _ + 1, _ => readScalar? text

/-- Reads the items of an array up to its closing bracket; `done` holds those before, last first. -/
def readItems? (fuel depth : Nat) (done : List TomlValue) (text : List Char) :
    Option (TomlValue × List Char) :=
  match fuel with
  | 0 => none
  | fuel + 1 => do
    match ← skipTrivia? (text.length + 1) text with
    | ']' :: rest => some (.array done.reverse, rest)
    | text =>
      let (item, rest) ← readValue? fuel depth text
      match ← skipTrivia? (rest.length + 1) rest with
      | ',' :: rest => readItems? fuel depth (item :: done) rest
      | ']' :: rest => some (.array (item :: done).reverse, rest)
      | _ => none

/-- Reads the entries of an inline table up to its closing brace.  Lines may end anywhere between the
parts of an entry, but not within a key. -/
def readEntries? (fuel depth : Nat) (done : TomlEntries) (text : List Char) :
    Option (TomlValue × List Char) :=
  match fuel with
  | 0 => none
  | fuel + 1 => do
    match ← skipTrivia? (text.length + 1) text with
    | '\x7d' :: rest => some (.table .inlined done, rest)
    | text =>
      let ((path, key), rest) ← readKey? text
      let rest ← afterMark? '=' (← skipTrivia? (rest.length + 1) rest)
      let (value, rest) ← readValue? fuel depth (← skipTrivia? (rest.length + 1) rest)
      let (_, done) ← TomlEntries.addEntry path key value .inlined done
      match ← skipTrivia? (rest.length + 1) rest with
      | ',' :: rest => readEntries? fuel depth done rest
      | '\x7d' :: rest => some (.table .inlined done, rest)
      | _ => none

end

/-! ## Documents -/

/-- The text behind the end of a line, before which a comment may stand. -/
def finishLine? (text : List Char) : Option (List Char) := do
  match ← skipComment? (skipSpaces text) with
  | [] => some []
  | rest => afterLineEnd? rest

/-- A document that was read in part. -/
structure Reader where
  /-- The entries of the whole document. -/
  entries : TomlEntries
  /-- The keys that lead to the table of the last header. -/
  current : List String

namespace Reader

/-- Reads an entry. -/
def readEntry? (reader : Reader) (text : List Char) : Option (Reader × List Char) := do
  let ((path, key), rest) ← readKey? text
  let rest ← afterMark? '=' rest
  let (value, rest) ← readValue? (2 * rest.length + 2) nestingLimit (skipSpaces rest)
  let (_, entries) ← TomlEntries.changeAt false (TomlEntries.addEntry path key value)
    reader.current .header reader.entries
  return (⟨entries, reader.current⟩, ← finishLine? rest)

/-- Reads a header behind its opening bracket, or behind both of them. -/
def readHeader? (reader : Reader) (isElement : Bool) (text : List Char) :
    Option (Reader × List Char) := do
  let ((path, key), rest) ← readKey? text
  let rest ← afterMark? ']' rest
  let rest ← if isElement then afterMark? ']' rest else some rest
  let (_, entries) ←
    if isElement then TomlEntries.openElement path key .header reader.entries
    else TomlEntries.openTable path key .header reader.entries
  return (⟨entries, path ++ [key]⟩, ← finishLine? rest)

/-- Reads the rest of a document.  Every entry and every header takes at least one character. -/
def readAll? (fuel : Nat) (reader : Reader) (text : List Char) : Option TomlEntries :=
  match fuel with
  | 0 => none
  | fuel + 1 => do
    let (reader, rest) ← match ← skipTrivia? (text.length + 1) text with
      | [] => some (reader, [])
      | '[' :: '[' :: rest => reader.readHeader? true rest
      | '[' :: rest => reader.readHeader? false rest
      | text => reader.readEntry? text
    if rest = [] then some reader.entries else readAll? fuel reader rest

end Reader

/-- The entries of the document that a text spells. -/
def parse? (text : String) : Option TomlEntries :=
  let characters := match text.toList with
    | '\ufeff' :: rest => rest
    | characters => characters
  Reader.readAll? (characters.length + 1) ⟨[], []⟩ characters

end Toml
end LiveSchema
