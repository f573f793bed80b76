import LiveSchema.Json.Parser
import LiveSchema.Json.Printer
import Mathlib.Data.List.Basic
import Mathlib.Tactic.SplitIfs

/-!
# Strings of documents

The reader gives back every string that the printer writes.  Each character is read in one step,
whether it was escaped or not.
-/

namespace LiveSchema
namespace Json

variable {fuel : Nat} {rest : List Char}

/-! ## Strings -/

/-- The characters between the quotation marks. -/
def escaped (text : List Char) : List Char :=
  text.flatMap fun c => (escape c).toList

theorem toList_quote (text : String) :
    (quote text).toList = '"' :: (escaped text.toList ++ ['"']) := by
  have hfold : ∀ (characters : List Char) (start : String),
      (characters.foldl (fun sofar c => sofar ++ escape c) start).toList =
        start.toList ++ escaped characters := by
    intro characters
    induction characters with
    | nil => intro start; simp [escaped]
    | cons c rest ih =>
        intro start
        rw [List.foldl_cons, ih]
        simp [escaped]
  rw [quote, String.toList_append, hfold]
  simp

/-- The two digits of a control character. -/
def controlDigits (n : Nat) : List Char :=
  if n < 16 then '0' :: Nat.toDigits 16 n else Nat.toDigits 16 n

theorem hexadecimal?_controlDigits : ∀ n < 32,
    (controlDigits n).length = 2 ∧
      Text.hexadecimal? ('0' :: '0' :: controlDigits n) = some n := by
  decide

theorem readCodePoint?_control {n : Nat} (hcontrol : n < 32) (rest : List Char) :
    readCodePoint? ('0' :: '0' :: (controlDigits n ++ rest)) =
      some (some (Char.ofNat n), rest) := by
  obtain ⟨hlength, hvalue⟩ := hexadecimal?_controlDigits n hcontrol
  obtain ⟨a, b, hdigits⟩ := List.length_eq_two.mp hlength
  rw [hdigits] at hvalue ⊢
  have hunit : readUnit? ('0' :: '0' :: a :: b :: rest) = some (n, rest) := by
    simp [readUnit?, hvalue]
  have hlow : ¬ 0xD800 ≤ n := by omega
  have hhigh : ¬ 0xDC00 ≤ n := by omega
  simp [readCodePoint?, hunit, hlow, hhigh]

/-- An escaped character is read in one step. -/
theorem readString?_escape (done : List Char) (c : Char) (rest : List Char) :
    readString? (fuel + 1) (some done) ((escape c).toList ++ rest) =
      readString? fuel (some (c :: done)) rest := by
  unfold escape
  split_ifs with hquote hslash hfeed hreturn htab hbackspace hform hshort hlong
  · subst hquote
    simp [readString?, readEscape?]
  · subst hslash
    simp [readString?, readEscape?]
  · subst hfeed
    simp [readString?, readEscape?]
  · subst hreturn
    simp [readString?, readEscape?]
  · subst htab
    simp [readString?, readEscape?]
  · obtain rfl : c = '\x08' := Char.toNat_inj.mp hbackspace
    simp [readString?, readEscape?]
  · obtain rfl : c = '\x0c' := Char.toNat_inj.mp hform
    simp [readString?, readEscape?]
  · have hread := readCodePoint?_control (Nat.lt_trans hshort (by decide : 16 < 32)) rest
    rw [controlDigits, if_pos hshort, Char.ofNat_toNat, List.cons_append] at hread
    simp [readString?, readEscape?, hread]
  · have hread := readCodePoint?_control hlong rest
    rw [controlDigits, if_neg hshort, Char.ofNat_toNat] at hread
    simp [readString?, readEscape?, hread]
  · rw [String.toList_singleton, List.singleton_append, readString?]
    · simp [hlong]
    · simpa using hquote
    · simpa using hslash

theorem readString?_escaped (done text : List Char) (rest : List Char)
    (hfuel : text.length < fuel) :
    readString? fuel (some done) (escaped text ++ '"' :: rest) =
      some (some (String.ofList (done.reverse ++ text)), rest) := by
  induction text generalizing done fuel with
  | nil =>
      obtain ⟨fuel, rfl⟩ := Nat.exists_eq_add_of_lt hfuel
      simp [escaped, readString?]
  | cons c text ih =>
      obtain ⟨more, rfl⟩ : ∃ more, fuel = more + 1 := ⟨fuel - 1, by simp at hfuel; omega⟩
      have hsplit : escaped (c :: text) ++ '"' :: rest =
          (escape c).toList ++ (escaped text ++ '"' :: rest) := by
        simp [escaped]
      rw [hsplit, readString?_escape, ih (c :: done) (by simpa using hfuel)]
      simp

theorem length_le_length_escaped (text : List Char) : text.length ≤ (escaped text).length := by
  have hone : ∀ c, 1 ≤ (escape c).toList.length := by
    intro c
    unfold escape
    split_ifs <;> simp
  induction text with
  | nil => simp
  | cons c rest ih =>
      have hc := hone c
      simp only [escaped, List.flatMap_cons, List.length_append, List.length_cons] at ih ⊢
      omega

/-- A quoted text is read back behind its opening mark. -/
theorem readString?_quote (text : String) (rest : List Char)
    (hfuel : (escaped text.toList).length < fuel) :
    readString? fuel (some []) (escaped text.toList ++ '"' :: rest) = some (some text, rest) := by
  have hlength := length_le_length_escaped text.toList
  rw [readString?_escaped [] text.toList rest (by omega)]
  simp

end Json
end LiveSchema
