/-!
# Decimal digits

Reading runs of the digits `0` to `9`.
-/

namespace LiveSchema
namespace Text

/-- The number that a run of decimal digits spells. -/
def ofDigits (digits : List Char) : Nat :=
  Nat.ofDigitChars 10 digits 0

/-- The number that a text spells, if it is a non-empty run of decimal digits. -/
def natural? (text : List Char) : Option Nat :=
  if text ≠ [] ∧ text.all Char.isDigit then some (ofDigits text) else none

/-- The decimal text of a natural number. -/
def ofNat (n : Nat) : List Char :=
  Nat.toDigits 10 n

@[simp]
theorem ofDigits_ofNat (n : Nat) : ofDigits (ofNat n) = n :=
  Nat.ofDigitChars_toDigits (by decide) (by decide)

/-- The value of a hexadecimal digit of either case. -/
def hexValue? (c : Char) : Option Nat :=
  if c.isDigit then some (c.toNat - 48)
  else if 'a' ≤ c ∧ c ≤ 'f' then some (c.toNat - 87)
  else if 'A' ≤ c ∧ c ≤ 'F' then some (c.toNat - 55)
  else none

/-- The number that a text spells in hexadecimal digits, if it is a non-empty run of them. -/
def hexadecimal? (text : List Char) : Option Nat :=
  if text = [] then none
  else text.foldl (fun sofar c => do return (← sofar) * 16 + (← hexValue? c)) (some 0)

/-- The hexadecimal text of a natural number, in lower case. -/
def toHex (n : Nat) : List Char :=
  Nat.toDigits 16 n

end Text
end LiveSchema
