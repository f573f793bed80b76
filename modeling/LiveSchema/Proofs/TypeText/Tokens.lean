import LiveSchema.TypeText.Parser
import Mathlib

/-!
# Tokens of written type references

What the scanner makes of a text, read in both directions: a text written from tokens is cut into
exactly these, and the first token of a text is written at its beginning, behind nothing but blanks.
Places are counted in bytes.
-/

namespace LiveSchema
namespace TypeText

variable {offset : Nat} {text rest : List Char}

/-! ## Pieces of text -/

/-- The number of bytes of a text. -/
def width (text : List Char) : Nat :=
  (text.map Char.utf8Size).sum

@[simp]
theorem width_nil : width [] = 0 :=
  rfl

@[simp]
theorem width_cons (c : Char) (text : List Char) : width (c :: text) = c.utf8Size + width text :=
  rfl

@[simp]
theorem width_append (text other : List Char) : width (text ++ other) = width text + width other := by
  simp [width]

/-- Nothing but blanks, tabs and line ends. -/
def IsBlank (gap : List Char) : Prop :=
  ∀ c ∈ gap, isGap c = true

@[simp]
theorem isBlank_nil : IsBlank [] := by
  simp [IsBlank]

/-- A text in which no identifier and no number goes on. -/
def Breaks (text : List Char) : Prop :=
  ∀ c, text.head? = some c → continuesIdentifier c = false

/-- A name that is one identifier token. -/
def IsWord (name : List Char) : Prop :=
  ∃ first rest, name = first :: rest ∧ startsIdentifier first = true ∧
    rest.all continuesIdentifier = true

/-- A run of digits. -/
def IsNumeral (digits : List Char) : Prop :=
  digits ≠ [] ∧ ∀ c ∈ digits, c.isDigit = true

theorem isNumeral_toDigits (n : Nat) : IsNumeral (Nat.toDigits 10 n) :=
  ⟨Nat.toDigits_ne_nil, fun _ hc => Nat.isDigit_of_mem_toDigits (by decide) (by decide) hc⟩

theorem breaks_cons {c : Char} (h : continuesIdentifier c = false) (rest : List Char) :
    Breaks (c :: rest) := by
  intro d hd
  obtain rfl : c = d := by simpa using hd
  exact h

/-! ## Characters -/

theorem isDigit_of_not_continues {c : Char} (h : continuesIdentifier c = false) :
    c.isDigit = false := by
  simp only [continuesIdentifier, Char.isAlphanum, Bool.or_eq_false_iff] at h
  exact h.1.2

theorem continues_of_isDigit {c : Char} (h : c.isDigit = true) : continuesIdentifier c = true := by
  simp [continuesIdentifier, Char.isAlphanum, h]

theorem continues_of_starts {c : Char} (h : startsIdentifier c = true) :
    continuesIdentifier c = true := by
  simp only [startsIdentifier, continuesIdentifier, Char.isAlphanum, Bool.or_eq_true] at h ⊢
  exact h.imp .inl id

theorem not_continues_of_isGap {c : Char} (h : isGap c = true) : continuesIdentifier c = false := by
  simp only [isGap, Bool.or_eq_true, beq_iff_eq] at h
  rcases h with ((rfl | rfl) | rfl) | rfl <;> decide

theorem not_isGap_of_continues {c : Char} (h : continuesIdentifier c = true) : isGap c = false := by
  rw [Bool.eq_false_iff]
  exact fun hgap => Bool.noConfusion (h.symm.trans (not_continues_of_isGap hgap))

theorem not_starts_of_isDigit {c : Char} (h : c.isDigit = true) : startsIdentifier c = false := by
  rw [Bool.eq_false_iff]
  intro hstarts
  simp only [startsIdentifier, Char.isAlpha, Char.isUpper, Char.isLower, Char.isDigit,
    Bool.or_eq_true, Bool.and_eq_true, decide_eq_true_eq, beq_iff_eq, ge_iff_le,
    UInt32.le_iff_toNat_le] at h hstarts
  rcases hstarts with (hupper | hlower) | rfl
  · simp at h hupper
    omega
  · simp at h hlower
    omega
  · simp at h

/-- Letters, digits and the underscore take one byte each. -/
theorem utf8Size_of_continues {c : Char} (h : continuesIdentifier c = true) : c.utf8Size = 1 := by
  rw [Char.utf8Size_eq_one_iff]
  simp only [continuesIdentifier, Char.isAlphanum, Char.isAlpha, Char.isUpper, Char.isLower,
    Char.isDigit, Bool.or_eq_true, Bool.and_eq_true, decide_eq_true_eq, beq_iff_eq, ge_iff_le,
    UInt32.le_iff_toNat_le] at h ⊢
  rcases h with ((hupper | hlower) | hdigit) | rfl
  · simp at hupper ⊢
    omega
  · simp at hlower ⊢
    omega
  · simp at hdigit ⊢
    omega
  · decide

theorem width_eq_length (h : ∀ c ∈ text, continuesIdentifier c = true) :
    width text = text.length := by
  induction text with
  | nil => rfl
  | cons c text ih =>
      rw [width_cons, utf8Size_of_continues (h c List.mem_cons_self),
        ih fun d hd => h d (List.mem_cons_of_mem _ hd), List.length_cons, Nat.add_comm]

theorem IsWord.continues {name : List Char} (h : IsWord name) :
    ∀ c ∈ name, continuesIdentifier c = true := by
  obtain ⟨first, rest, rfl, hfirst, hrest⟩ := h
  exact List.forall_mem_cons.mpr ⟨continues_of_starts hfirst, List.all_eq_true.mp hrest⟩

theorem IsNumeral.continues {digits : List Char} (h : IsNumeral digits) :
    ∀ c ∈ digits, continuesIdentifier c = true :=
  fun c hc => continues_of_isDigit (h.2 c hc)

/-! ## Cutting a text that was written from tokens -/

theorem span_of_breaks {p : Char → Bool} {digits rest : List Char}
    (hdigits : ∀ c ∈ digits, p c = true) (hrest : ∀ c, rest.head? = some c → p c = false) :
    (digits ++ rest).takeWhile p = digits ∧ (digits ++ rest).dropWhile p = rest := by
  have hempty : rest.takeWhile p = [] ∧ rest.dropWhile p = rest := by
    cases rest with
    | nil => exact ⟨rfl, rfl⟩
    | cons c rest => simp [hrest c rfl]
  rw [List.takeWhile_append_of_pos hdigits, List.dropWhile_append_of_pos hdigits, hempty.1,
    hempty.2, List.append_nil]
  exact ⟨rfl, rfl⟩

theorem scanFrom_nil (offset : Nat) : (scanFrom offset []).1 = [] := by
  rw [scanFrom]

theorem scanFrom_gap {gap : List Char} (h : IsBlank gap) (offset : Nat) (rest : List Char) :
    scanFrom offset (gap ++ rest) = scanFrom (offset + width gap) rest := by
  induction gap generalizing offset with
  | nil => rfl
  | cons c gap ih =>
      rw [List.cons_append, scanFrom, if_pos (h c List.mem_cons_self),
        ih fun d hd => h d (List.mem_cons_of_mem _ hd), width_cons, Nat.add_assoc]

theorem scanFrom_word {name : List Char} (hname : IsWord name) (hrest : Breaks rest)
    (offset : Nat) :
    (scanFrom offset (name ++ rest)).1 =
      ⟨.identifier name, offset⟩ :: (scanFrom (offset + width name) rest).1 := by
  rw [width_eq_length hname.continues]
  obtain ⟨first, more, rfl, hfirst, hmore⟩ := hname
  obtain ⟨htake, hdrop⟩ := span_of_breaks (List.all_eq_true.mp hmore) hrest
  rw [List.cons_append, scanFrom]
  simp only [not_isGap_of_continues (continues_of_starts hfirst), hfirst, htake, hdrop, if_true,
    Bool.false_eq_true, if_false]

theorem scanFrom_numeral {digits : List Char} (hdigits : IsNumeral digits) (hrest : Breaks rest)
    (offset : Nat) :
    (scanFrom offset (digits ++ rest)).1 =
      ⟨.digits digits, offset⟩ :: (scanFrom (offset + width digits) rest).1 := by
  rw [width_eq_length hdigits.continues]
  obtain ⟨hne, hall⟩ := hdigits
  obtain ⟨first, more, rfl⟩ := List.exists_cons_of_ne_nil hne
  have hfirst := hall first List.mem_cons_self
  obtain ⟨htake, hdrop⟩ := span_of_breaks (fun c hc => hall c (List.mem_cons_of_mem _ hc))
    fun c hc => isDigit_of_not_continues (hrest c hc)
  rw [List.cons_append, scanFrom]
  simp only [not_isGap_of_continues (continues_of_isDigit hfirst), not_starts_of_isDigit hfirst,
    hfirst, htake, hdrop, if_true, Bool.false_eq_true, if_false]

theorem scanFrom_opening (offset : Nat) (rest : List Char) :
    (scanFrom offset ('<' :: rest)).1 = ⟨.opening, offset⟩ :: (scanFrom (offset + 1) rest).1 := by
  rw [scanFrom]
  rfl

theorem scanFrom_comma (offset : Nat) (rest : List Char) :
    (scanFrom offset (',' :: rest)).1 = ⟨.comma, offset⟩ :: (scanFrom (offset + 1) rest).1 := by
  rw [scanFrom]
  rfl

theorem scanFrom_closing (offset : Nat) (rest : List Char) :
    (scanFrom offset ('>' :: rest)).1 = ⟨.closing, offset⟩ :: (scanFrom (offset + 1) rest).1 := by
  rw [scanFrom]
  rfl

/-! ## The first token of a text -/

/-- The characters that a token is written in. -/
def Token.spelling : Token → List Char
  | .identifier name => name
  | .digits run => run
  | .opening => ['<']
  | .comma => [',']
  | .closing => ['>']
  | .stray character => [character]

/-- Identifiers are words and numbers are numerals. -/
def Token.IsProper : Token → Prop
  | .identifier name => IsWord name
  | .digits run => IsNumeral run
  | _ => True

theorem isBlank_of_scanFrom_eq_nil (h : (scanFrom offset text).1 = []) : IsBlank text := by
  induction text generalizing offset with
  | nil => exact isBlank_nil
  | cons c text ih =>
      rw [scanFrom] at h
      split at h
      next hgap => exact List.forall_mem_cons.mpr ⟨hgap, ih h⟩
      next =>
        split at h
        · exact absurd h (by simp)
        · split at h <;> exact absurd h (by simp)

/-- A character that starts no identifier and no number is a token of its own. -/
theorem spelling_mark (c : Char) {token : Token}
    (h : token = if c == '<' then .opening else if c == ',' then .comma
      else if c == '>' then .closing else .stray c) :
    token.spelling = [c] ∧ token.IsProper := by
  split at h
  · simp_all [Token.spelling, Token.IsProper]
  · split at h
    · simp_all [Token.spelling, Token.IsProper]
    · split at h <;> simp_all [Token.spelling, Token.IsProper]

/-- The characters that one token takes at the beginning of a text. -/
theorem exists_spelling_of_scanFrom {c : Char} {placed : Placed} {behind : List Placed}
    (hgap : isGap c = false) (h : (scanFrom offset (c :: text)).1 = placed :: behind) :
    ∃ rest, c :: text = placed.token.spelling ++ rest ∧ placed.offset = offset ∧
      placed.token.IsProper ∧
        behind = (scanFrom (offset + width placed.token.spelling) rest).1 := by
  rw [scanFrom] at h
  simp only [hgap, Bool.false_eq_true, if_false] at h
  split at h
  next hstarts =>
    obtain ⟨rfl, rfl⟩ := List.cons.inj h
    have hword : IsWord (c :: text.takeWhile continuesIdentifier) :=
      ⟨c, _, rfl, hstarts, List.all_takeWhile⟩
    exact ⟨text.dropWhile continuesIdentifier, by simp [Token.spelling], rfl, hword, by
      rw [Token.spelling, width_eq_length hword.continues]⟩
  next =>
    split at h
    next hdigit =>
      obtain ⟨rfl, rfl⟩ := List.cons.inj h
      have hnumeral : IsNumeral (c :: text.takeWhile Char.isDigit) :=
        ⟨by simp, List.forall_mem_cons.mpr ⟨hdigit, List.all_eq_true.mp List.all_takeWhile⟩⟩
      exact ⟨text.dropWhile Char.isDigit, by simp [Token.spelling], rfl, hnumeral, by
        rw [Token.spelling, width_eq_length hnumeral.continues]⟩
    next =>
      obtain ⟨rfl, rfl⟩ := List.cons.inj h
      obtain ⟨hspelling, hproper⟩ := spelling_mark c rfl
      exact ⟨text, by rw [hspelling]; rfl, rfl, hproper, by rw [hspelling]; rfl⟩

/-- The first token stands behind blanks, and the others are those of the text behind it. -/
theorem exists_split_of_scanFrom {placed : Placed} {behind : List Placed}
    (h : (scanFrom offset text).1 = placed :: behind) :
    ∃ gap rest, text = gap ++ (placed.token.spelling ++ rest) ∧ IsBlank gap ∧
      placed.offset = offset + width gap ∧ placed.token.IsProper ∧
        behind = (scanFrom (placed.offset + width placed.token.spelling) rest).1 := by
  induction text generalizing offset with
  | nil => exact absurd h (by simp [scanFrom_nil])
  | cons c text ih =>
      cases hgap : isGap c with
      | false =>
          obtain ⟨rest, htext, hoffset, hproper, hbehind⟩ := exists_spelling_of_scanFrom hgap h
          exact ⟨[], rest, htext, isBlank_nil, hoffset, hproper, hoffset ▸ hbehind⟩
      | true =>
          rw [scanFrom, if_pos hgap] at h
          obtain ⟨gap, rest, rfl, hblank, hoffset, hproper, hbehind⟩ := ih h
          exact ⟨c :: gap, rest, rfl, List.forall_mem_cons.mpr ⟨hgap, hblank⟩,
            by rw [hoffset, width_cons, Nat.add_assoc], hproper, hbehind⟩

end TypeText
end LiveSchema
