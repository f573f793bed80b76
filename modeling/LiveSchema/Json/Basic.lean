import LiveSchema.Numeric.Reading

/-!
# JSON values

Stored values, audit parameters and documents are JSON values.  Objects keep the order of their
entries.  An integer that fits into 64 bits, with or without a sign, stays an integer; every other
number is a finite floating-point number.
-/

namespace LiveSchema

/-- The integers a JSON number holds exactly. -/
def IsDocumentInteger (i : Int) : Prop :=
  -0x8000000000000000 ≤ i ∧ i < 0x10000000000000000

instance (i : Int) : Decidable (IsDocumentInteger i) :=
  inferInstanceAs (Decidable (_ ∧ _))

/-- A JSON number. -/
inductive Number where
  | integer (value : Int) (fits : IsDocumentInteger value)
  | float (value : Binary64)
deriving DecidableEq, Repr

namespace Number

/-- The value of an integer that fits into 64 bits with a sign. -/
def signed? : Number → Option Int
  | .integer value _ => if value < 0x8000000000000000 then some value else none
  | .float _ => none

/-- The value of an integer that is not negative. -/
def unsigned? : Number → Option Nat
  | .integer value _ => if 0 ≤ value then some value.toNat else none
  | .float _ => none

end Number

/-- A JSON value. -/
inductive Json where
  | null
  | bool (value : Bool)
  | number (value : Number)
  | string (value : String)
  | array (items : List Json)
  | object (entries : List (String × Json))
deriving Inhabited, Repr

/-- The entries of an object, in order. -/
abbrev Entries := List (String × Json)

namespace Entries

/-- The value under a key. -/
def value? (entries : Entries) (key : String) : Option Json :=
  (List.find? (fun entry => entry.1 = key) entries).map Prod.snd

/-- Sets the value under a key: in place if the key occurs, else at the end. -/
def assign (key : String) (value : Json) : Entries → Entries
  | [] => [(key, value)]
  | entry :: rest =>
    if entry.1 = key then (key, value) :: rest else entry :: assign key value rest

/-- Takes out the value under a key.  The last entry moves into the place that becomes free. -/
def extract? (key : String) : Entries → Option (Json × Entries)
  | [] => none
  | entry :: rest =>
    if entry.1 = key then
      match rest.getLast? with
      | none => some (entry.2, [])
      | some last => some (entry.2, last :: rest.dropLast)
    else (extract? key rest).map fun (value, remaining) => (value, entry :: remaining)

/-- The entries with each key once: in its first place, with its last value. -/
def merge (entries : Entries) : Entries :=
  entries.foldl (fun sofar entry => assign entry.1 entry.2 sofar) []

end Entries

namespace Json

/-- The integer `i` as a value; one that does not fit is null. -/
def ofInt (i : Int) : Json :=
  if fits : IsDocumentInteger i then .number (.integer i fits) else .null

/-- The natural number `n` as a value. -/
def ofNat (n : Nat) : Json :=
  ofInt n

/-- The floating-point number `x` as a value. -/
def ofFloat (x : Binary64) : Json :=
  .number (.float x)

/-- The text, or null if there is none. -/
def ofText? : Option String → Json
  | none => .null
  | some text => .string text

def isNull : Json → Bool
  | .null => true
  | _ => false

def isBool : Json → Bool
  | .bool _ => true
  | _ => false

def isNumber : Json → Bool
  | .number _ => true
  | _ => false

def isString : Json → Bool
  | .string _ => true
  | _ => false

def array? : Json → Option (List Json)
  | .array items => some items
  | _ => none

def object? : Json → Option Entries
  | .object entries => some entries
  | _ => none

def string? : Json → Option String
  | .string text => some text
  | _ => none

/-- The value of an integer that fits into 64 bits with a sign. -/
def signed? : Json → Option Int
  | .number n => n.signed?
  | _ => none

/-- The value of an integer that is not negative. -/
def unsigned? : Json → Option Nat
  | .number n => n.unsigned?
  | _ => none

/-! ## Measures -/

mutual

/-- How many containers lie inside one another. -/
def depth : Json → Nat
  | .array items => depthOfItems 0 items + 1
  | .object entries => depthOfEntries 0 entries + 1
  | _ => 0

/-- The greatest depth of the items, or `sofar` if that is greater. -/
def depthOfItems (sofar : Nat) : List Json → Nat
  | [] => sofar
  | item :: rest => depthOfItems (max sofar item.depth) rest

/-- The greatest depth of the values of the entries, or `sofar` if that is greater. -/
def depthOfEntries (sofar : Nat) : List (String × Json) → Nat
  | [] => sofar
  | (_, value) :: rest => depthOfEntries (max sofar value.depth) rest

end

end Json
end LiveSchema
