import LiveSchema.Proofs.Checks
import Mathlib.Data.List.Nodup
import Mathlib.Order.Bounds.Basic
import Std.Data.String.ToNat

/-!
# Fresh names

A fresh name is a word followed by a number.  Such names are legal, and the search for one that is not
taken succeeds because there are more candidates than names in use.
-/

namespace LiveSchema

namespace Legality

/-- A word of letters, to which a number can be added. -/
def IsStem (word : String) : Prop :=
  ∃ first rest, word.toList = first :: rest ∧ TypeText.startsIdentifier first = true ∧
    rest.all TypeText.continuesIdentifier = true ∧ '_' ∉ word.toList

theorem hasDoubleUnderscore_of_not_mem {text : List Char} (h : '_' ∉ text) :
    hasDoubleUnderscore text = false := by
  induction text with
  | nil => rfl
  | cons first rest ih =>
      rw [List.mem_cons, not_or] at h
      unfold hasDoubleUnderscore
      split
      next => simp_all
      next heq => exact (List.cons.inj heq).2 ▸ ih h.2
      next => rfl

/-- No keyword ends with a digit. -/
theorem not_isKeyword_of_getLast? {name : String} {last : Char}
    (hlast : name.toList.getLast? = some last) (hdigit : last.isDigit = true) :
    isKeyword name = false := by
  have hends : ∀ word ∈ keywords, (word.toList.getLast?.any Char.isDigit) = false := by
    decide +kernel
  by_contra hkeyword
  rw [Bool.not_eq_false, isKeyword, List.contains_iff_mem] at hkeyword
  have hnone := hends name hkeyword
  rw [hlast, Option.any_some, hdigit] at hnone
  exact absurd hnone (by simp)

theorem isIdentifier_numbered {word : String} (hword : IsStem word) (n : Nat) :
    IsIdentifier (word ++ Nat.repr n) := by
  obtain ⟨first, rest, hlist, hfirst, hrest, hunderscore⟩ := hword
  have htext : (word ++ Nat.repr n).toList = first :: (rest ++ Nat.toDigits 10 n) := by
    rw [String.toList_append, hlist, Nat.toList_repr, List.cons_append]
  have hdigits : ∀ c ∈ Nat.toDigits 10 n, c.isDigit = true := fun c hc =>
    Nat.isDigit_of_mem_toDigits (by decide) (by decide) hc
  have hcontinues : (rest ++ Nat.toDigits 10 n).all TypeText.continuesIdentifier = true := by
    rw [List.all_append, hrest, Bool.true_and, List.all_eq_true]
    intro c hc
    simp [TypeText.continuesIdentifier, Char.isAlphanum, hdigits c hc]
  have hnone : '_' ∉ first :: (rest ++ Nat.toDigits 10 n) := by
    rw [hlist] at hunderscore
    simpa using hunderscore
  have hkeyword : isKeyword (word ++ Nat.repr n) = false := by
    have hne : Nat.toDigits 10 n ≠ [] := Nat.toDigits_ne_nil
    have hlast : (word ++ Nat.repr n).toList.getLast? =
        some ((Nat.toDigits 10 n).getLast hne) := by
      rw [htext, ← List.cons_append, List.getLast?_append_of_ne_nil _ hne,
        List.getLast?_eq_some_getLast hne]
    exact not_isKeyword_of_getLast? hlast (hdigits _ (List.getLast_mem hne))
  have hreserved : startsReserved (first :: (rest ++ Nat.toDigits 10 n)) = false := by
    unfold startsReserved
    split
    next heq => exact absurd (heq ▸ List.mem_cons_self) hnone
    next => rfl
  rw [IsIdentifier, nameViolation?, htext]
  simp [hfirst, hcontinues, hkeyword, hasDoubleUnderscore_of_not_mem hnone, hreserved]

end Legality

namespace Registry

/-- The search for a name that is not taken, without a bound: from a number on, candidates are looked at
one after the other until one is free. -/
inductive Finds (taken : String → Bool) (word : String) : Nat → String → Prop
  | free {number : Nat} (hfree : taken (word ++ Nat.repr number) = false) :
      Finds taken word number (word ++ Nat.repr number)
  | next {number : Nat} {name : String} (htaken : taken (word ++ Nat.repr number) = true)
      (rest : Finds taken word (number + 1) name) : Finds taken word number name

section Finds

variable {taken : String → Bool} {word name : String} {first : Nat}

/-- What the search finds has the least number that is free. -/
theorem Finds.exists_isLeast (h : Finds taken word first name) :
    ∃ number, IsLeast {n | first ≤ n ∧ taken (word ++ Nat.repr n) = false} number ∧
      name = word ++ Nat.repr number := by
  induction h with
  | free hfree => exact ⟨_, ⟨⟨Nat.le_refl _, hfree⟩, fun n hn => hn.1⟩, rfl⟩
  | @next tried name htaken rest ih =>
      obtain ⟨number, ⟨⟨hle, hfree⟩, hleast⟩, rfl⟩ := ih
      refine ⟨number, ⟨⟨Nat.le_of_succ_le hle, hfree⟩, fun n ⟨hn, hnfree⟩ => ?_⟩, rfl⟩
      rcases Nat.eq_or_lt_of_le hn with rfl | hlt
      · exact absurd (htaken.symm.trans hnfree) (by decide)
      · exact hleast ⟨hlt, hnfree⟩

/-- The search comes to one end only. -/
theorem Finds.unique (h : Finds taken word first name) {other : String}
    (hother : Finds taken word first other) : name = other := by
  obtain ⟨number, hnumber, rfl⟩ := h.exists_isLeast
  obtain ⟨second, hsecond, rfl⟩ := hother.exists_isLeast
  rw [hnumber.unique hsecond]

/-- What the search finds is free. -/
theorem Finds.free_name (h : Finds taken word first name) : taken name = false := by
  obtain ⟨number, hnumber, rfl⟩ := h.exists_isLeast
  exact hnumber.1.2

/-- A search that goes by a check finds a name that passes it. -/
theorem Finds.check_eq_ok {check : String → Except Error Unit}
    (h : Finds (fun name => (check name).toBool = false) word first name) : check name = .ok () := by
  have hfree := h.free_name
  cases hanswer : check name with
  | ok done => rfl
  | error error =>
      rw [hanswer] at hfree
      exact absurd hfree (by simp [Except.toBool])

/-- The search ends before its tries are used up if fewer names are in use than are tried. -/
theorem finds_freshName {tries : Nat} (used : List String)
    (hused : ∀ n, first ≤ n → taken (word ++ Nat.repr n) = true → word ++ Nat.repr n ∈ used)
    (hmore : used.length < tries) :
    Finds taken word first (freshName taken word first tries) := by
  induction tries generalizing first used with
  | zero => exact absurd hmore (Nat.not_lt_zero _)
  | succ tries ih =>
      rw [freshName]
      by_cases htaken : taken (word ++ Nat.repr first) = true
      · have hmem := hused first (Nat.le_refl _) htaken
        rw [if_pos htaken]
        -- the name that was taken is not met again
        refine .next htaken (ih (used.erase (word ++ Nat.repr first)) ?_ ?_)
        · intro n hn hin
          refine (List.mem_erase_of_ne fun hsame => ?_).mpr (hused n (Nat.le_of_succ_le hn) hin)
          have hnumber := Nat.repr_injective ((String.append_right_inj word).mp hsame)
          omega
        · have hlength := List.length_erase_of_mem hmem
          have hpositive := List.length_pos_of_mem hmem
          omega
      · rw [if_neg htaken]
        exact .free (by simpa using htaken)

/-- The search that goes by a check ends if the check refuses only names in use and fewer names are in
use than are tried. -/
theorem finds_freshName_of_check {check : String → Except Error Unit} {tries : Nat}
    (hword : Legality.IsStem word) (used : List String)
    (hcheck : ∀ name, Legality.IsIdentifier name → name ∉ used → check name = .ok ())
    (hmore : used.length < tries) :
    Finds (fun name => (check name).toBool = false) word first
      (freshName (fun name => (check name).toBool = false) word first tries) := by
  refine finds_freshName used (fun n _ htaken => ?_) hmore
  by_contra hout
  rw [hcheck _ (Legality.isIdentifier_numbered hword n) hout] at htaken
  exact absurd htaken (by decide)

end Finds

end Registry
end LiveSchema
