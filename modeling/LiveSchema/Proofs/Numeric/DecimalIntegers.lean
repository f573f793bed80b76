import LiveSchema.Proofs.Text
import LiveSchema.Value.Conversion

/-!
# Decimal texts of integers

The text of an integer is its decimal text.  Every integer that a number of a document can hold is
read back from it, be it as an integer with a sign or as one without.
-/

namespace LiveSchema

namespace Text

theorem isDigit_of_mem_ofNat {n : Nat} {c : Char} (h : c ∈ ofNat n) : c.isDigit = true :=
  Nat.isDigit_of_mem_toDigits (by decide) (by decide) h

theorem natural?_ofNat (n : Nat) : natural? (ofNat n) = some n := by
  rw [natural?, if_pos ⟨Nat.toDigits_ne_nil, List.all_eq_true.mpr fun c => isDigit_of_mem_ofNat⟩,
    ofDigits_ofNat]

/-- A text without blanks stays as it is. -/
theorem trim_of_solid {text : List Char} (h : ∀ c ∈ text, isBlank c = false) : trim text = text := by
  have hreverse : ∀ c ∈ text.reverse, isBlank c = false := fun c hc => h c (List.mem_reverse.mp hc)
  rw [trim, trimStart_of_solid h, trimStart_of_solid hreverse, List.reverse_reverse]

/-- The decimal text of an integer. -/
def ofInt (n : Int) : List Char :=
  if n < 0 then '-' :: ofNat n.natAbs else ofNat n.natAbs

theorem toList_toString (n : Int) : (toString n).toList = ofInt n := by
  cases n with
  | ofNat n => simp [ofInt, ofNat, toString, Int.repr, Nat.repr]
  | negSucc n => simp [ofInt, ofNat, toString, Int.repr, Nat.repr]

theorem trim_ofInt (n : Int) : trim (ofInt n) = ofInt n := by
  refine trim_of_solid fun c hc => ?_
  have hdigits : ∀ c ∈ ofNat n.natAbs, isBlank c = false := fun c hc =>
    isBlank_of_isDigit (isDigit_of_mem_ofNat hc)
  unfold ofInt at hc
  split at hc
  · rcases List.mem_cons.mp hc with rfl | hc
    · decide
    · exact hdigits c hc
  · exact hdigits c hc

end Text

namespace Reading

open Text

/-- Digits start with no sign. -/
theorem exists_ofNat_eq_cons (n : Nat) :
    ∃ c rest, ofNat n = c :: rest ∧ c ≠ '+' ∧ c ≠ '-' := by
  obtain ⟨c, rest, h⟩ := List.exists_cons_of_ne_nil (show ofNat n ≠ [] from Nat.toDigits_ne_nil)
  have hdigit : c.isDigit = true := isDigit_of_mem_ofNat (h ▸ List.mem_cons_self)
  refine ⟨c, rest, h, ?_, ?_⟩ <;> rintro rfl <;> exact absurd hdigit (by decide)

theorem sign_ofNat (n : Nat) : sign (ofNat n) = (false, ofNat n) := by
  obtain ⟨c, rest, h, hplus, hminus⟩ := exists_ofNat_eq_cons n
  rw [h]
  unfold sign
  split <;> simp_all

theorem sign_ofInt (n : Int) : sign (ofInt n) = (decide (n < 0), ofNat n.natAbs) := by
  by_cases hneg : n < 0
  · rw [ofInt, if_pos hneg, decide_eq_true hneg]
    rfl
  · rw [ofInt, if_neg hneg, decide_eq_false hneg, sign_ofNat]

/-- Of the integers, those that fit into 64 bits with a sign are read as such. -/
theorem signed64?_ofInt (n : Int) :
    signed64? (ofInt n) = if InSigned64 n then some n else none := by
  have hvalue : (if decide (n < 0) = true then -(n.natAbs : Int) else n.natAbs) = n := by
    by_cases hneg : n < 0
    · rw [decide_eq_true hneg, if_pos rfl]
      omega
    · rw [decide_eq_false hneg, if_neg Bool.false_ne_true]
      omega
  simp only [signed64?, sign_ofInt, natural?_ofNat, Option.bind_eq_bind, Option.bind_some, hvalue]

/-- Of the integers, those that fit into 64 bits without a sign are read as such. -/
theorem unsigned64?_ofInt {n : Int} (hn : 0 ≤ n) (hfits : n < 0x10000000000000000) :
    unsigned64? (ofInt n) = some n.toNat := by
  have hvalue : n.natAbs = n.toNat := by omega
  have hsmall : n.toNat < 0x10000000000000000 := by omega
  obtain ⟨c, rest, h, hplus, -⟩ := exists_ofNat_eq_cons n.natAbs
  have hdigits : unsigned64? (ofNat n.natAbs) = (natural? (ofNat n.natAbs)).bind fun value =>
      if value < 0x10000000000000000 then some value else none := by
    rw [h]
    unfold unsigned64?
    split
    next hsign => exact absurd (List.cons.inj hsign).1 hplus
    next => rfl
  rw [ofInt, if_neg (Int.not_lt.mpr hn), hdigits, natural?_ofNat, Option.bind_some, hvalue,
    if_pos hsmall]

end Reading

namespace Scalar

/-- The text of an integer is its decimal text. -/
theorem render_integer (n : Int) : render (.integer n) = toString n := by
  apply String.toList_inj.mp
  rw [Text.toList_toString, Text.ofInt, render]
  split <;> simp [Text.ofNat, Nat.repr]

theorem ofNumberText_ofInt {n : Int} (h : IsDocumentInteger n) :
    ofNumberText (Text.ofInt n) = .integer n := by
  rw [ofNumberText, Reading.signed64?_ofInt]
  by_cases hsigned : InSigned64 n
  · rw [if_pos hsigned]
  · have hlarge : 0x8000000000000000 ≤ n := by
      have hlow := h.1
      unfold InSigned64 at hsigned
      omega
    rw [if_neg hsigned, Reading.unsigned64?_ofInt (by omega) h.2]
    simp only [Int.toNat_of_nonneg (show 0 ≤ n by omega)]

/-- The decimal text of an integer is read as this integer. -/
theorem ofText_toString {n : Int} (h : IsDocumentInteger n) {target : Builtin}
    (htarget : target ≠ .bool) : ofText target (.string (toString n)) = .integer n := by
  rw [ofText, if_neg htarget]
  simp only [Json.string?, Option.getD_some]
  rw [Text.toList_toString, Text.trim_ofInt, ofNumberText_ofInt h]

end Scalar
end LiveSchema
