import LiveSchema.Text.Digits

/-!
# Quoted text in TOML

There are four kinds of quotes: basic ones with escapes and literal ones without, each on one line or,
with the quote written three times, on many.  Text on many lines may hold up to two quotes in a row,
also right before its end; it keeps the ends of its lines as they are spelled.
-/

namespace LiveSchema
namespace Toml

/-- Blanks within a line. -/
def isSpace (c : Char) : Bool :=
  c = ' ' || c = '\t'

def skipSpaces (text : List Char) : List Char :=
  text.dropWhile isSpace

/-- The end of a line at the start of a text, and the text behind it. -/
def readLineEnd? : List Char → Option (List Char × List Char)
  | '\n' :: rest => some (['\n'], rest)
  | '\r' :: '\n' :: rest => some (['\r', '\n'], rest)
  | _ => none

/-- The text behind the end of a line. -/
def afterLineEnd? (text : List Char) : Option (List Char) :=
  (readLineEnd? text).map Prod.snd

/-- Whether a character may stand for itself in quotes and comments. -/
def isPlain (c : Char) : Bool :=
  c = '\t' || (32 ≤ c.toNat && c.toNat ≠ 127)

/-- The character of a code point written in hexadecimal digits. -/
def charOfHex? (digits : List Char) : Option Char := do
  let n ← Text.hexadecimal? digits
  if n.isValidChar then some (Char.ofNat n) else none

/-- The character with a code point of `width` digits at the start of a text. -/
def readHex? (width : Nat) (text : List Char) : Option (Char × List Char) := do
  if text.length < width then none
  else return (← charOfHex? (text.take width), text.drop width)

/-- The character that an escape stands for, read behind its backslash. -/
def readEscape? : List Char → Option (Char × List Char)
  | 'b' :: rest => some ('\x08', rest)
  | 't' :: rest => some ('\t', rest)
  | 'n' :: rest => some ('\n', rest)
  | 'f' :: rest => some ('\x0c', rest)
  | 'r' :: rest => some ('\r', rest)
  | 'e' :: rest => some ('\x1b', rest)
  | '"' :: rest => some ('"', rest)
  | '\\' :: rest => some ('\\', rest)
  | 'x' :: rest => readHex? 2 rest
  | 'u' :: rest => readHex? 4 rest
  | 'U' :: rest => readHex? 8 rest
  | _ => none

/-! ## Text on one line -/

/-- The rest of basic text; `done` holds the characters before, last first. -/
def readBasic? (fuel : Nat) (done : List Char) (text : List Char) :
    Option (List Char × List Char) :=
  match fuel, text with
  | 0, _ => none
  | _, [] => none
  | _ + 1, '"' :: rest => some (done.reverse, rest)
  | fuel + 1, '\\' :: rest => do
    let (c, rest) ← readEscape? rest
    readBasic? fuel (c :: done) rest
  | fuel + 1, c :: rest => if isPlain c then readBasic? fuel (c :: done) rest else none

/-- The rest of literal text. -/
def readLiteral? (text : List Char) : Option (List Char × List Char) :=
  let inner := text.takeWhile isPlain
  let inner := inner.takeWhile fun c => c ≠ '\''
  match text.drop inner.length with
  | '\'' :: rest => some (inner, rest)
  | _ => none

/-! ## Text on many lines -/

/-- The text without blanks and ends of lines at its start. -/
def skipBlankLines : List Char → List Char
  | [] => []
  | c :: rest =>
    if isSpace c || c = '\n' then skipBlankLines rest
    else
      match c, rest with
      | '\r', '\n' :: _ => skipBlankLines rest
      | _, _ => c :: rest

/-- The rest of text on many lines between the given quotes, with escapes if it is basic. -/
def readLong? (quote : Char) (fuel : Nat) (done : List Char) (text : List Char) :
    Option (List Char × List Char) :=
  match fuel, text with
  | 0, _ => none
  | _, [] => none
  | fuel + 1, c :: rest =>
    if c = quote then
      let run := (text.takeWhile fun d => d = quote).length
      let kept := if run < 3 then run else min (run - 3) 2
      let done := List.replicate kept quote ++ done
      if run < 3 then readLong? quote fuel done (text.drop run)
      else some (done.reverse, text.drop (kept + 3))
    else if c = '\\' ∧ quote = '"' then
      match afterLineEnd? (skipSpaces rest) with
      | some rest => readLong? quote fuel done (skipBlankLines rest)
      | none => do
        let (c, rest) ← readEscape? rest
        readLong? quote fuel (c :: done) rest
    else
      match readLineEnd? text with
      | some (ending, rest) => readLong? quote fuel (ending.reverse ++ done) rest
      | none => if isPlain c then readLong? quote fuel (c :: done) rest else none

/-- Text on many lines, read behind its opening quotes.  The end of a line right there does not
count. -/
def readLines? (quote : Char) (text : List Char) : Option (List Char × List Char) :=
  let text := (afterLineEnd? text).getD text
  readLong? quote (text.length + 1) [] text

/-! ## All quotes -/

/-- Quoted text on one line. -/
def readQuoted? : List Char → Option (List Char × List Char)
  | '"' :: rest => readBasic? (rest.length + 1) [] rest
  | '\'' :: rest => readLiteral? rest
  | _ => none

/-- Quoted text on one line or many. -/
def readText? : List Char → Option (List Char × List Char)
  | '"' :: '"' :: '"' :: rest => readLines? '"' rest
  | '\'' :: '\'' :: '\'' :: rest => readLines? '\'' rest
  | text => readQuoted? text

end Toml
end LiveSchema
