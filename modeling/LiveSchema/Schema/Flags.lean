import LiveSchema.Text.Blank
import LiveSchema.Text.Digits

/-!
# Bit flags

Fields, records and template parameters carry sets of flags.  A set is kept as its bits, bits without
a name included.  Its text lists the names, then the bits without a name in hexadecimal.
-/

namespace LiveSchema

/-- The names of a kind of flags, each with the place of its bit. -/
abbrev FlagNames := List (String × Nat)

namespace FlagNames

/-- The names of the bits that are set, then the other bits in hexadecimal. -/
def render (names : FlagNames) (bits : Nat) : String :=
  let set := names.filter fun flag => bits.testBit flag.2
  let unnamed := set.foldl (fun left flag => left - Nat.pow 2 flag.2) bits
  let tail := if unnamed = 0 then [] else ["0x" ++ String.ofList (Text.toHex unnamed)]
  " | ".intercalate (set.map Prod.fst ++ tail)

/-- The bits that one part of a text stands for. -/
def partBits? (names : FlagNames) (width : Nat) : List Char → Option Nat
  | '0' :: 'x' :: digits => do
    let digits := match digits with
      | '+' :: rest => rest
      | _ => digits
    let bits ← Text.hexadecimal? digits
    if bits < Nat.pow 2 width then some bits else none
  | part => (names.find? fun flag => flag.1.toList = part).map fun flag => Nat.pow 2 flag.2

/-- The bits that a text stands for, in a set of `width` bits.  A blank text is the empty set. -/
def parse? (names : FlagNames) (width : Nat) (text : String) : Option Nat :=
  if Text.trim text.toList = [] then some 0
  else
    ((text.toList.splitOn '|').map Text.trim).foldl
      (fun sofar part => do return (← sofar) ||| (← partBits? names width part)) (some 0)

end FlagNames

/-! ## Flags of a field -/

/-- The flags of a field. -/
structure FieldFlags where
  bits : UInt16
deriving DecidableEq, Repr

namespace FieldFlags

/-- The names of the flags of a field. -/
def names : FlagNames :=
  ["PRIVATE", "TRANSIENT", "GETTER", "SETTER", "UNIQUE", "INDEXED", "NO_EDIT", "NO_VIEW",
    "NO_DEBUG", "NO_CLONE", "NO_SERIALIZE", "NO_DESERIALIZE"].zipIdx

def empty : FieldFlags := ⟨0⟩

def isPrivate (flags : FieldFlags) : Bool := flags.bits.toNat.testBit 0

def hasGetter (flags : FieldFlags) : Bool := flags.bits.toNat.testBit 2

def hasSetter (flags : FieldFlags) : Bool := flags.bits.toNat.testBit 3

def isUnique (flags : FieldFlags) : Bool := flags.bits.toNat.testBit 4

def isIndexed (flags : FieldFlags) : Bool := flags.bits.toNat.testBit 5

def render (flags : FieldFlags) : String :=
  names.render flags.bits.toNat

def parse? (text : String) : Option FieldFlags :=
  (names.parse? 16 text).map fun bits => ⟨UInt16.ofNat bits⟩

end FieldFlags

/-! ## Flags of a record -/

/-- The flags of a record. -/
structure RecordFlags where
  bits : UInt8
deriving DecidableEq, Repr

namespace RecordFlags

/-- The names of the flags of a record. -/
def names : FlagNames := [("TABLE", 0)]

def empty : RecordFlags := ⟨0⟩

/-- Whether the values of a struct are kept as rows of a table. -/
def isTable (flags : RecordFlags) : Bool := flags.bits.toNat.testBit 0

/-- The flags with `TABLE` set or cleared. -/
def withTable (flags : RecordFlags) (enabled : Bool) : RecordFlags :=
  if enabled then ⟨flags.bits ||| 1⟩ else ⟨flags.bits &&& 0xFE⟩

def render (flags : RecordFlags) : String :=
  names.render flags.bits.toNat

def parse? (text : String) : Option RecordFlags :=
  (names.parse? 8 text).map fun bits => ⟨UInt8.ofNat bits⟩

end RecordFlags

/-! ## Flags of a template parameter -/

/-- The flags of a template parameter. -/
structure ParameterFlags where
  bits : UInt8
deriving DecidableEq, Repr

namespace ParameterFlags

/-- The names of the flags of a template parameter. -/
def names : FlagNames := [("MULTIPLE", 0), ("CAN_BE_INCOMPLETE", 1)]

def empty : ParameterFlags := ⟨0⟩

/-- Whether the parameter takes any number of arguments from its place on. -/
def isMultiple (flags : ParameterFlags) : Bool := flags.bits.toNat.testBit 0

/-- Whether an argument need not be fully defined. -/
def canBeIncomplete (flags : ParameterFlags) : Bool := flags.bits.toNat.testBit 1

def multiple : ParameterFlags := ⟨1⟩

def incomplete : ParameterFlags := ⟨2⟩

def render (flags : ParameterFlags) : String :=
  names.render flags.bits.toNat

def parse? (text : String) : Option ParameterFlags :=
  (names.parse? 8 text).map fun bits => ⟨UInt8.ofNat bits⟩

end ParameterFlags
end LiveSchema
