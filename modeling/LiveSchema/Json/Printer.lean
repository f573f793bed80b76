import LiveSchema.Json.Basic
import LiveSchema.Numeric.DecimalText

/-!
# Writing JSON

Two forms: the compact one, without any blanks, and the indented one of document files, with two
spaces for each level.  Only quotation marks, backslashes and control characters are escaped.
-/

namespace LiveSchema

namespace Number

/-- The text of a number. -/
def render : Number → String
  | .integer value _ => (if value < 0 then "-" else "") ++ Nat.repr value.natAbs
  | .float value => DecimalStyle.document.render value

end Number

namespace Json

/-- A character inside quotation marks. -/
def escape (c : Char) : String :=
  if c = '"' then "\\\""
  else if c = '\\' then "\\\\"
  else if c = '\n' then "\\n"
  else if c = '\r' then "\\r"
  else if c = '\t' then "\\t"
  else if c.toNat = 8 then "\\b"
  else if c.toNat = 12 then "\\f"
  else if c.toNat < 16 then "\\u000" ++ String.ofList (Nat.toDigits 16 c.toNat)
  else if c.toNat < 32 then "\\u00" ++ String.ofList (Nat.toDigits 16 c.toNat)
  else String.singleton c

/-- The text in quotation marks. -/
def quote (text : String) : String :=
  text.toList.foldl (fun sofar c => sofar ++ escape c) "\"" ++ "\""

/-- The text of a value that is not a container. -/
def renderScalar : Json → String
  | .bool true => "true"
  | .bool false => "false"
  | .number n => n.render
  | .string text => quote text
  | _ => "null"

/-! ## Compact form -/

mutual

/-- Writes a value behind the text `sofar`. -/
def write (sofar : String) : Json → String
  | .array items => writeItems (sofar ++ "[") "" items ++ "]"
  | .object entries => writeEntries (sofar ++ "\x7b") "" entries ++ "\x7d"
  | value => sofar ++ renderScalar value

/-- Writes the items of an array, `mark` before the first. -/
def writeItems (sofar mark : String) : List Json → String
  | [] => sofar
  | item :: rest => writeItems (item.write (sofar ++ mark)) "," rest

/-- Writes the entries of an object, `mark` before the first. -/
def writeEntries (sofar mark : String) : List (String × Json) → String
  | [] => sofar
  | (key, value) :: rest => writeEntries (value.write (sofar ++ mark ++ quote key ++ ":")) "," rest

end

/-- The compact text of a value. -/
def render (value : Json) : String :=
  value.write ""

/-! ## Indented form -/

/-- A line break and the indentation of a level. -/
def lineBreak (level : Nat) : String :=
  "\n" ++ String.ofList (List.replicate (2 * level) ' ')

mutual

/-- Writes a value of the given level behind the text `sofar`. -/
def writeIndented (level : Nat) (sofar : String) : Json → String
  | .array [] => sofar ++ "[]"
  | .object [] => sofar ++ "\x7b\x7d"
  | .array items =>
    writeIndentedItems (level + 1) (sofar ++ "[") "" items ++ lineBreak level ++ "]"
  | .object entries =>
    writeIndentedEntries (level + 1) (sofar ++ "\x7b") "" entries ++ lineBreak level ++ "\x7d"
  | value => sofar ++ renderScalar value

def writeIndentedItems (level : Nat) (sofar mark : String) : List Json → String
  | [] => sofar
  | item :: rest =>
    writeIndentedItems level (item.writeIndented level (sofar ++ mark ++ lineBreak level)) "," rest

def writeIndentedEntries (level : Nat) (sofar mark : String) : List (String × Json) → String
  | [] => sofar
  | (key, value) :: rest =>
    writeIndentedEntries level
      (value.writeIndented level (sofar ++ mark ++ lineBreak level ++ quote key ++ ": ")) "," rest

end

/-- The indented text of a value. -/
def renderIndented (value : Json) : String :=
  value.writeIndented 0 ""

end Json
end LiveSchema
