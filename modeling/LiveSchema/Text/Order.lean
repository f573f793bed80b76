/-!
# The order of names

Names are ordered character by character, by code point, a name coming before its extensions.
-/

namespace LiveSchema
namespace Text

/-- Whether a text comes strictly before another. -/
def precedes : List Char → List Char → Bool
  | _, [] => false
  | [], _ :: _ => true
  | a :: as, b :: bs => Nat.blt a.toNat b.toNat || (a == b && precedes as bs)

theorem precedes_irrefl (text : List Char) : precedes text text = false := by
  induction text with
  | nil => rfl
  | cons a as ih =>
    have below : Nat.blt a.toNat a.toNat = false := by
      rw [Bool.eq_false_iff, ne_eq, Nat.blt_eq]
      exact Nat.lt_irrefl _
    simp [precedes, ih, below]

theorem precedes_trans {a b c : List Char} (hab : precedes a b = true) (hbc : precedes b c = true) :
    precedes a c = true := by
  induction a generalizing b c with
  | nil =>
    cases c with
    | nil => cases b <;> simp [precedes] at hbc
    | cons _ _ => rfl
  | cons x xs ih =>
    cases b with
    | nil => simp [precedes] at hab
    | cons y ys =>
      cases c with
      | nil => simp [precedes] at hbc
      | cons z zs =>
        simp only [precedes, Bool.or_eq_true, Nat.blt_eq, Bool.and_eq_true, beq_iff_eq] at *
        rcases hab with h | ⟨rfl, h⟩ <;> rcases hbc with k | ⟨rfl, k⟩
        · exact Or.inl (Nat.lt_trans h k)
        · exact Or.inl h
        · exact Or.inl k
        · exact Or.inr ⟨rfl, ih h k⟩

theorem precedes_total (a b : List Char) : precedes a b = true ∨ a = b ∨ precedes b a = true := by
  induction a generalizing b with
  | nil => cases b <;> simp [precedes]
  | cons x xs ih =>
    cases b with
    | nil => simp [precedes]
    | cons y ys =>
      simp only [precedes, Bool.or_eq_true, Nat.blt_eq, Bool.and_eq_true, beq_iff_eq,
        List.cons.injEq]
      rcases Nat.lt_trichotomy x.toNat y.toNat with h | h | h
      · exact Or.inl (Or.inl h)
      · obtain rfl : x = y := Char.toNat_inj.mp h
        rcases ih ys with h | h | h
        · exact Or.inl (Or.inr ⟨rfl, h⟩)
        · exact Or.inr (Or.inl ⟨rfl, h⟩)
        · exact Or.inr (Or.inr (Or.inr ⟨rfl, h⟩))
      · exact Or.inr (Or.inr (Or.inl h))

end Text
end LiveSchema
