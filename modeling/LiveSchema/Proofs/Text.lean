import LiveSchema.Text.Blank
import LiveSchema.Text.Digits
import Mathlib.Data.List.TakeWhile

/-!
# Parts of texts

Hexadecimal digits are read back, and a text is cut at its marks into the parts it was joined from.
-/

namespace LiveSchema

/-! ## Hexadecimal digits -/

namespace Text

theorem hexValue?_digitChar : ∀ d < 16, hexValue? d.digitChar = some d := by
  decide

theorem foldl_toHex (n : Nat) :
    (toHex n).foldl (fun sofar c => do return (← sofar) * 16 + (← hexValue? c)) (some 0) =
      some n := by
  induction n using Nat.strongRecOn with
  | ind n ih =>
      by_cases hsmall : n < 16
      · rw [toHex, Nat.toDigits_of_lt_base hsmall]
        simp [hexValue?_digitChar n hsmall]
      · have hlarge : 16 ≤ n := Nat.not_lt.mp hsmall
        have hquotient := ih (n / 16) (by omega)
        rw [toHex] at hquotient ⊢
        rw [Nat.toDigits_of_base_le (by decide) hlarge, List.foldl_append, hquotient]
        simp [hexValue?_digitChar (n % 16) (Nat.mod_lt _ (by decide))]
        omega

/-- The hexadecimal digits of a number spell it. -/
theorem hexadecimal?_toHex (n : Nat) : hexadecimal? (toHex n) = some n := by
  rw [hexadecimal?, if_neg (show toHex n ≠ [] from Nat.toDigits_ne_nil), foldl_toHex]

/-- A text with neither a blank nor a bar in it. -/
def Solid (text : List Char) : Prop :=
  text ≠ [] ∧ ∀ c ∈ text, isBlank c = false ∧ c ≠ '|'

instance (text : List Char) : Decidable (Solid text) :=
  decidable_of_iff (text ≠ [] ∧ text.all (fun c => !isBlank c && c ≠ '|') = true)
    (by simp [Solid])

theorem solid_digitChar : ∀ d < 16, isBlank d.digitChar = false ∧ d.digitChar ≠ '|' ∧
    d.digitChar ≠ '+' := by
  decide

theorem mem_toHex {n : Nat} {c : Char} (h : c ∈ toHex n) : ∃ d < 16, c = d.digitChar := by
  induction n using Nat.strongRecOn with
  | ind n ih =>
      by_cases hsmall : n < 16
      · rw [toHex, Nat.toDigits_of_lt_base hsmall, List.mem_singleton] at h
        exact ⟨n, hsmall, h⟩
      · have hlarge : 16 ≤ n := Nat.not_lt.mp hsmall
        rw [toHex, Nat.toDigits_of_base_le (by decide) hlarge] at h
        rcases List.mem_append.mp h with h | h
        · exact ih (n / 16) (by omega) h
        · exact ⟨n % 16, Nat.mod_lt _ (by decide), List.mem_singleton.mp h⟩

/-! ## Cutting at a mark -/

/-- A text without the mark only lengthens the last part. -/
theorem exists_splitOn_append (mark : Char) (text : List Char) :
    ∃ before base, ∀ ending, mark ∉ ending →
      (text ++ ending).splitOn mark = before ++ [base ++ ending] := by
  by_cases hmark : mark ∈ text
  · obtain ⟨last, front, hreverse, hlast⟩ :=
      List.eq_append_cons_of_mem (List.mem_reverse.mpr hmark)
    have htext : text = front.reverse ++ mark :: last.reverse := by
      rw [← List.reverse_reverse text, hreverse]
      simp
    refine ⟨front.reverse.splitOn mark, last.reverse, fun ending hending => ?_⟩
    have hbase : mark ∉ last.reverse ++ ending := by simp [hlast, hending]
    rw [htext, List.append_assoc, List.cons_append, List.splitOn_append_cons_self,
      List.splitOn_eq_singleton hbase]
  · refine ⟨[], text, fun ending hending => ?_⟩
    have hbase : mark ∉ text ++ ending := by simp [hmark, hending]
    rw [List.splitOn_eq_singleton hbase, List.nil_append]

/-! ## Parts between bars -/

theorem trimStart_of_solid {text : List Char} (h : ∀ c ∈ text, isBlank c = false) :
    trimStart text = text := by
  cases text with
  | nil => rfl
  | cons c rest => simp [trimStart, h c List.mem_cons_self]

theorem trim_blank {c : Char} (hc : isBlank c = true) (text : List Char) :
    trim (c :: text) = trim text := by
  simp [trim, trimStart, hc]

/-- The blanks around a part are not part of it. -/
theorem trim_append_blank {text : List Char} (h : Solid text) {c : Char} (hc : isBlank c = true) :
    trim (text ++ [c]) = text ∧ trim text = text := by
  obtain ⟨hne, hsolid⟩ := h
  obtain ⟨first, rest, rfl⟩ := List.exists_cons_of_ne_nil hne
  have hfirst := (hsolid first List.mem_cons_self).1
  have hreverse : trimStart (first :: rest).reverse = (first :: rest).reverse :=
    trimStart_of_solid fun d hd => (hsolid d (List.mem_reverse.mp hd)).1
  have hstart : trimStart (first :: rest ++ [c]) = first :: rest ++ [c] := by
    simp [trimStart, hfirst]
  constructor
  · rw [trim, hstart, List.reverse_append]
    have hdrop : trimStart ([c].reverse ++ (first :: rest).reverse) =
        trimStart (first :: rest).reverse := by
      simp [trimStart, hc]
    rw [hdrop, hreverse, List.reverse_reverse]
  · rw [trim, trimStart_of_solid fun d hd => (hsolid d hd).1, hreverse, List.reverse_reverse]

theorem isBlank_of_isDigit {c : Char} (h : c.isDigit = true) : isBlank c = false := by
  have hlow : '0'.toNat = 48 := rfl
  have hhigh : '9'.toNat = 57 := rfl
  have hrange := Char.isDigit_iff_toNat.mp h
  simp only [isBlank, blankRanges, List.any_cons, List.any_nil, Bool.or_false, Bool.or_eq_false_iff,
    Bool.and_eq_false_imp, decide_eq_true_eq, decide_eq_false_iff_not]
  omega

theorem trimStart_eq_nil_iff {text : List Char} :
    trimStart text = [] ↔ ∀ c ∈ text, isBlank c = true :=
  List.dropWhile_eq_nil_iff

/-- Only blanks vanish when they are trimmed. -/
theorem trim_eq_nil_iff {text : List Char} : trim text = [] ↔ ∀ c ∈ text, isBlank c = true := by
  rw [trim, List.reverse_eq_nil_iff, ← trimStart_eq_nil_iff]
  constructor
  · intro h
    have hblank := trimStart_eq_nil_iff.mp h
    have hkept := List.head?_dropWhile_not isBlank text
    rw [← trimStart] at hkept
    cases hstart : trimStart text with
    | nil => rfl
    | cons c rest =>
        rw [hstart] at hkept
        exact absurd (hblank c (by simp [hstart])) (by simpa using hkept)
  · intro h
    rw [h]
    rfl

/-- What starts with no blank does not vanish when it is trimmed. -/
theorem trim_ne_nil {c : Char} (hc : isBlank c = false) (rest : List Char) :
    trim (c :: rest) ≠ [] := by
  rw [ne_eq, trim_eq_nil_iff]
  exact fun hall => absurd (hall c List.mem_cons_self) (by simp [hc])

/-- The parts of a text, with a bar and blanks between them. -/
def joined : List (List Char) → List Char
  | [] => []
  | [part] => part
  | part :: next :: rest => part ++ ' ' :: '|' :: ' ' :: joined (next :: rest)

theorem splitOn_joined {parts : List (List Char)} (hne : parts ≠ [])
    (hsolid : ∀ part ∈ parts, Solid part) :
    ((joined parts).splitOn '|').map trim = parts := by
  have hblank : isBlank ' ' = true := by decide
  induction parts with
  | nil => exact absurd rfl hne
  | cons part rest ih =>
      have hpart := hsolid part List.mem_cons_self
      have hbar : '|' ∉ part := fun h => (hpart.2 '|' h).2 rfl
      cases rest with
      | nil =>
          rw [joined, List.splitOn_eq_singleton hbar]
          simp [(trim_append_blank hpart hblank).2]
      | cons next rest =>
          have hrest := ih (by simp) fun other hother => hsolid other (List.mem_cons_of_mem _ hother)
          have hsplit : joined (part :: next :: rest) =
              (part ++ [' ']) ++ '|' :: (' ' :: joined (next :: rest)) := by
            simp [joined]
          have hbar' : '|' ∉ part ++ [' '] := by simpa using hbar
          rw [hsplit, List.splitOn_append_cons_self_of_not_mem hbar', List.map_cons,
            (trim_append_blank hpart hblank).1]
          -- the blank behind the bar goes with the part that follows
          have hskip : ((' ' :: joined (next :: rest)).splitOn '|').map trim =
              ((joined (next :: rest)).splitOn '|').map trim := by
            rw [List.splitOn_cons_eq_if_modifyHead, if_neg (by decide)]
            cases hparts : (joined (next :: rest)).splitOn '|' with
            | nil => rfl
            | cons head tail => simp [trim_blank hblank]
          rw [hskip, hrest]

theorem toList_intercalate (parts : List String) :
    (" | ".intercalate parts).toList = joined (parts.map String.toList) := by
  induction parts with
  | nil => rfl
  | cons part rest ih =>
      cases rest with
      | nil => simp [joined]
      | cons next rest =>
          rw [String.intercalate_cons_cons, List.map_cons, List.map_cons, joined, ← List.map_cons,
            ← ih]
          simp

theorem trim_joined_ne_nil {parts : List (List Char)} (hne : parts ≠ [])
    (hsolid : ∀ part ∈ parts, Solid part) : trim (joined parts) ≠ [] := by
  obtain ⟨part, rest, rfl⟩ := List.exists_cons_of_ne_nil hne
  obtain ⟨hpart, hblank⟩ := hsolid part List.mem_cons_self
  obtain ⟨c, more, rfl⟩ := List.exists_cons_of_ne_nil hpart
  have hc := (hblank c List.mem_cons_self).1
  obtain ⟨behind, hstart⟩ : ∃ behind, joined ((c :: more) :: rest) = c :: behind := by
    cases rest with
    | nil => exact ⟨more, rfl⟩
    | cons next rest => exact ⟨_, rfl⟩
  rw [hstart]
  exact trim_ne_nil hc behind

end Text

end LiveSchema
