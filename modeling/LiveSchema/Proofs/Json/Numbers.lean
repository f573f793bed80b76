import LiveSchema.Json.Parser
import LiveSchema.Json.Printer
import Mathlib.Data.List.Basic

/-!
# Numbers of documents

The reader gives back every integer that the printer writes, before everything that does not go on
like a number.  A floating-point number is written in a form that the reader takes for one number;
that its digits lead back to it is a property of the number, `Number.ReadsBack`.
-/

namespace LiveSchema
namespace Json

variable {fuel : Nat} {rest : List Char}

/-! ## Parts of numbers -/

/-- No number goes on with the text. -/
def Stops (rest : List Char) : Prop :=
  ∀ c, rest.head? = some c → c.isDigit = false ∧ c ≠ '.' ∧ c ≠ 'e' ∧ c ≠ 'E'

theorem stops_nil : Stops [] := by
  intro c hc
  exact absurd hc (by simp)

theorem stops_cons {c : Char} {rest : List Char} (hdigit : c.isDigit = false) (hpoint : c ≠ '.')
    (hsmall : c ≠ 'e') (hlarge : c ≠ 'E') : Stops (c :: rest) := by
  intro d hd
  obtain rfl : c = d := by simpa using hd
  exact ⟨hdigit, hpoint, hsmall, hlarge⟩

theorem takeWhile_of_stops (h : Stops rest) : rest.takeWhile Char.isDigit = [] := by
  cases rest with
  | nil => rfl
  | cons c rest => simp [(h c rfl).1]

theorem dropWhile_of_stops (h : Stops rest) : rest.dropWhile Char.isDigit = rest := by
  cases rest with
  | nil => rfl
  | cons c rest => simp [(h c rfl).1]

/-- The digits at the start of a text are the same where nothing goes on with them. -/
theorem digits_append (text : List Char) (h : Stops rest) :
    (text ++ rest).takeWhile Char.isDigit = text.takeWhile Char.isDigit ∧
      (text ++ rest).dropWhile Char.isDigit = text.dropWhile Char.isDigit ++ rest := by
  induction text with
  | nil => simp [takeWhile_of_stops h, dropWhile_of_stops h]
  | cons c text ih =>
      cases hc : c.isDigit with
      | true => simp [hc, ih.1, ih.2]
      | false => simp [hc]

theorem readWhole?_append {text digits left : List Char} (h : readWhole? text = some (digits, left))
    (hrest : Stops rest) : readWhole? (text ++ rest) = some (digits, left ++ rest) := by
  unfold readWhole? at h
  split at h
  next more =>
      split at h
      next c _ =>
          split at h
          · exact absurd h (by simp)
          next hc =>
              obtain ⟨rfl, rfl⟩ := Prod.mk.inj (Option.some.inj h)
              simp [readWhole?, hc]
      next =>
          obtain ⟨rfl, rfl⟩ := Prod.mk.inj (Option.some.inj h)
          cases rest with
          | nil => rfl
          | cons c rest => simp [readWhole?, (hrest c rfl).1]
  next hzero =>
      simp only at h
      split at h
      · exact absurd h (by simp)
      next hdigits =>
          obtain ⟨rfl, rfl⟩ := Prod.mk.inj (Option.some.inj h)
          obtain ⟨htake, hdrop⟩ := digits_append text hrest
          unfold readWhole?
          split
          next more hmore =>
              cases text with
              | nil => exact absurd rfl hdigits
              | cons c text =>
                  obtain rfl : c = '0' := by simpa using (List.cons.inj hmore).1
                  exact absurd rfl (hzero text)
          next => simp only [htake, hdrop, if_neg hdigits]

theorem readFraction?_append {text digits left : List Char}
    (h : readFraction? text = some (digits, left)) (hrest : Stops rest) :
    readFraction? (text ++ rest) = some (digits, left ++ rest) := by
  unfold readFraction? at h
  split at h
  next more =>
      simp only at h
      split at h
      · exact absurd h (by simp)
      next hdigits =>
          obtain ⟨rfl, rfl⟩ := Prod.mk.inj (Option.some.inj h)
          obtain ⟨htake, hdrop⟩ := digits_append more hrest
          simp only [List.cons_append, readFraction?, htake, hdrop, if_neg hdigits]
  next hpoint =>
      obtain ⟨rfl, rfl⟩ := Prod.mk.inj (Option.some.inj h)
      unfold readFraction?
      split
      next more hmore =>
          cases text with
          | nil =>
              have hhead := hrest '.' (by simp [show rest = '.' :: more by simpa using hmore])
              exact absurd rfl hhead.2.1
          | cons c text =>
              obtain rfl : c = '.' := by simpa using (List.cons.inj hmore).1
              exact absurd rfl (hpoint text)
      next => rfl

theorem readExponent?_append {text left : List Char} {exponent : Option Int}
    (h : readExponent? text = some (exponent, left)) (hrest : Stops rest) :
    readExponent? (text ++ rest) = some (exponent, left ++ rest) := by
  cases text with
  | nil =>
      obtain ⟨rfl, rfl⟩ := Prod.mk.inj (Option.some.inj h)
      cases rest with
      | nil => rfl
      | cons c rest =>
          have hc := hrest c rfl
          simp [readExponent?, hc.2.2.1, hc.2.2.2]
  | cons mark text =>
      rw [List.cons_append]
      unfold readExponent? at h ⊢
      simp only at h ⊢
      split at h
      next hmark =>
          rw [if_pos hmark]
          -- the sign is read off the text itself, which holds digits
          have hsign : text ≠ [] → Reading.sign (text ++ rest) =
              ((Reading.sign text).1, (Reading.sign text).2 ++ rest) := by
            intro hne
            obtain ⟨c, more, rfl⟩ := List.exists_cons_of_ne_nil hne
            unfold Reading.sign
            split <;> split <;> simp_all
          cases text with
          | nil => simp [Reading.sign] at h
          | cons c more =>
              rw [hsign (by simp)]
              obtain ⟨htake, hdrop⟩ := digits_append (Reading.sign (c :: more)).2 hrest
              rw [htake, hdrop]
              split at h
              · exact absurd h (by simp)
              next hdigits =>
                  rw [if_neg hdigits]
                  obtain ⟨rfl, rfl⟩ := Prod.mk.inj (Option.some.inj h)
                  rfl
      next hmark =>
          rw [if_neg hmark]
          obtain ⟨rfl, rfl⟩ := Prod.mk.inj (Option.some.inj h)
          rfl

theorem readNumber?_eq_some {negative : Bool} {text left : List Char} {draft : Draft} :
    readNumber? negative text = some (draft, left) ↔
      ∃ whole behind fraction further exponent, readWhole? text = some (whole, behind) ∧
        readFraction? behind = some (fraction, further) ∧
        readExponent? further = some (exponent, left) ∧
        numberDraft negative whole fraction exponent = draft := by
  simp only [readNumber?, Option.bind_eq_bind, Option.bind_eq_some_iff, Prod.exists, Option.pure_def,
    Option.some.injEq, Prod.mk.injEq]
  constructor
  · rintro ⟨whole, behind, hwhole, fraction, further, hfraction, exponent, last, hexponent, hdraft,
      rfl⟩
    exact ⟨whole, behind, fraction, further, exponent, hwhole, hfraction, hexponent, hdraft⟩
  · rintro ⟨whole, behind, fraction, further, exponent, hwhole, hfraction, hexponent, hdraft⟩
    exact ⟨whole, behind, hwhole, fraction, further, hfraction, exponent, left, hexponent, hdraft,
      rfl⟩

/-- A number is read with the same result before more text. -/
theorem readNumber?_append {negative : Bool} {text left : List Char} {draft : Draft}
    (h : readNumber? negative text = some (draft, left)) (hrest : Stops rest) :
    readNumber? negative (text ++ rest) = some (draft, left ++ rest) := by
  obtain ⟨whole, behind, fraction, further, exponent, hwhole, hfraction, hexponent, hdraft⟩ :=
    readNumber?_eq_some.mp h
  exact readNumber?_eq_some.mpr ⟨whole, behind ++ rest, fraction, further ++ rest, exponent,
    readWhole?_append hwhole hrest, readFraction?_append hfraction hrest,
    readExponent?_append hexponent hrest, hdraft⟩

theorem digitChar_eq_zero : ∀ n < 10, n.digitChar = '0' → n = 0 := by
  decide

/-- The digits of a number do not start with a zero, unless there is no other. -/
theorem head?_toDigits {n : Nat} (h : (Nat.toDigits 10 n).head? = some '0') : n = 0 := by
  induction n using Nat.strongRecOn with
  | ind n ih =>
      by_cases hsmall : n < 10
      · rw [Nat.toDigits_of_lt_base hsmall] at h
        exact digitChar_eq_zero n hsmall (by simpa using h)
      · have hlarge : 10 ≤ n := Nat.not_lt.mp hsmall
        rw [Nat.toDigits_of_base_le (by decide) hlarge,
          List.head?_append_of_ne_nil _ Nat.toDigits_ne_nil] at h
        have hquotient := ih (n / 10) (by omega) h
        omega

/-- The digits of a natural number are its whole part. -/
theorem readWhole?_toDigits (n : Nat) :
    readWhole? (Nat.toDigits 10 n) = some (Nat.toDigits 10 n, []) := by
  have hdigits : ∀ c ∈ Nat.toDigits 10 n, c.isDigit = true := fun c hc =>
    Nat.isDigit_of_mem_toDigits (by decide) (by decide) hc
  unfold readWhole?
  split
  next more hmore =>
      obtain rfl : n = 0 := head?_toDigits (by simp [hmore])
      obtain rfl : more = [] := by simpa using hmore.symm
      rfl
  next =>
      have htake := @List.takeWhile_append_of_pos _ _ _ [] hdigits
      have hdrop := @List.dropWhile_append_of_pos _ _ _ [] hdigits
      simp only [List.append_nil, List.takeWhile_nil, List.dropWhile_nil] at htake hdrop
      simp only [htake, hdrop, if_neg Nat.toDigits_ne_nil]

/-- An integer is read back behind its sign. -/
theorem readNumber?_integer {value : Int} (fits : IsDocumentInteger value) :
    readNumber? (decide (value < 0)) (Nat.toDigits 10 value.natAbs) =
      some (.number (.integer value fits), []) := by
  have hmagnitude : (if decide (value < 0) then
      -((Text.ofDigits (Nat.toDigits 10 value.natAbs) : Nat) : Int)
        else Text.ofDigits (Nat.toDigits 10 value.natAbs)) = value := by
    rw [show Text.ofDigits (Nat.toDigits 10 value.natAbs) = value.natAbs from
      Text.ofDigits_ofNat value.natAbs]
    by_cases hnegative : value < 0
    · simp only [hnegative, decide_true, if_true]
      omega
    · simp only [hnegative, decide_false, Bool.false_eq_true, if_false]
      omega
  refine readNumber?_eq_some.mpr ⟨_, [], [], [], none, readWhole?_toDigits _, rfl, rfl, ?_⟩
  simp only [numberDraft, hmagnitude]
  rw [dif_pos]
  refine ⟨⟨trivial, trivial, ?_⟩, fits⟩
  rintro ⟨hnegative, hzero⟩
  exact Int.ne_of_lt (of_decide_eq_true hnegative) hzero

theorem suffix_of_readWhole? {text digits left : List Char}
    (h : readWhole? text = some (digits, left)) : left <:+ text := by
  unfold readWhole? at h
  split at h
  next more =>
      split at h
      next =>
          split at h
          · exact absurd h (by simp)
          · obtain ⟨-, rfl⟩ := Prod.mk.inj (Option.some.inj h)
            exact List.suffix_cons _ _
      next =>
          obtain ⟨-, rfl⟩ := Prod.mk.inj (Option.some.inj h)
          exact List.nil_suffix
  next =>
      simp only at h
      split at h
      · exact absurd h (by simp)
      · obtain ⟨-, rfl⟩ := Prod.mk.inj (Option.some.inj h)
        exact List.dropWhile_suffix _

theorem suffix_of_readFraction? {text digits left : List Char}
    (h : readFraction? text = some (digits, left)) : left <:+ text := by
  unfold readFraction? at h
  split at h
  next more =>
      simp only at h
      split at h
      · exact absurd h (by simp)
      · obtain ⟨-, rfl⟩ := Prod.mk.inj (Option.some.inj h)
        exact (List.dropWhile_suffix _).trans (List.suffix_cons _ _)
  next =>
      obtain ⟨-, rfl⟩ := Prod.mk.inj (Option.some.inj h)
      exact List.suffix_rfl

theorem suffix_of_readExponent? {text left : List Char} {exponent : Option Int}
    (h : readExponent? text = some (exponent, left)) : left <:+ text := by
  have hsign : ∀ text, (Reading.sign text).2 <:+ text := by
    intro text
    unfold Reading.sign
    split
    · exact List.suffix_cons _ _
    · exact List.suffix_cons _ _
    · exact List.suffix_rfl
  unfold readExponent? at h
  split at h
  next mark rest =>
      split at h
      · simp only at h
        split at h
        · exact absurd h (by simp)
        · obtain ⟨-, rfl⟩ := Prod.mk.inj (Option.some.inj h)
          exact ((List.dropWhile_suffix _).trans (hsign rest)).trans (List.suffix_cons _ _)
      · obtain ⟨-, rfl⟩ := Prod.mk.inj (Option.some.inj h)
        exact List.suffix_rfl
  next =>
      obtain ⟨-, rfl⟩ := Prod.mk.inj (Option.some.inj h)
      exact List.suffix_rfl

/-- What is left behind a number is the end of the text. -/
theorem suffix_of_readNumber? {negative : Bool} {text left : List Char} {draft : Draft}
    (h : readNumber? negative text = some (draft, left)) : left <:+ text := by
  obtain ⟨whole, behind, fraction, further, exponent, hwhole, hfraction, hexponent, -⟩ :=
    readNumber?_eq_some.mp h
  exact ((suffix_of_readExponent? hexponent).trans (suffix_of_readFraction? hfraction)).trans
    (suffix_of_readWhole? hwhole)

/-! ## The text of a number -/

/-- A text without a sign, or behind a minus. -/
def signed (negative : Bool) (digits : List Char) : List Char :=
  if negative then '-' :: digits else digits

/-- The characters of which numbers are written. -/
def isNumeral (c : Char) : Bool :=
  c.isDigit || c = '.' || c = 'e' || c = '-' || c = '+'

theorem isNumeral_of_isDigit {c : Char} (h : c.isDigit = true) : isNumeral c = true := by
  simp [isNumeral, h]

/-- A text that a number may have behind its sign. -/
structure IsMagnitude (text : List Char) : Prop where
  starts : ∃ c rest, text = c :: rest ∧ c.isDigit = true
  characters : ∀ c ∈ text, isNumeral c = true

theorem isMagnitude_toDigits (n : Nat) : IsMagnitude (Nat.toDigits 10 n) := by
  have hdigits : ∀ c ∈ Nat.toDigits 10 n, c.isDigit = true := fun c hc =>
    Nat.isDigit_of_mem_toDigits (by decide) (by decide) hc
  obtain ⟨c, rest, hsplit⟩ := List.exists_cons_of_ne_nil (Nat.toDigits_ne_nil (n := n) (b := 10))
  exact ⟨⟨c, rest, hsplit, hdigits c (by simp [hsplit])⟩,
    fun d hd => isNumeral_of_isDigit (hdigits d hd)⟩

/-- Digits may be followed by anything of which numbers are written. -/
theorem IsMagnitude.append {text more : List Char} (h : IsMagnitude text)
    (hmore : ∀ c ∈ more, isNumeral c = true) : IsMagnitude (text ++ more) := by
  obtain ⟨c, rest, rfl, hc⟩ := h.starts
  refine ⟨⟨c, rest ++ more, rfl, hc⟩, fun d hd => ?_⟩
  rcases List.mem_append.mp hd with hd | hd
  · exact h.characters d hd
  · exact hmore d hd

theorem isMagnitude_layoutPositional (style : DecimalStyle) (d : Decimal) :
    IsMagnitude (style.layoutPositional d).toList := by
  have hdigits : IsMagnitude d.digits := isMagnitude_toDigits d.coefficient
  have hzeros : ∀ count, ∀ c ∈ List.replicate count '0', isNumeral c = true := by
    intro count c hc
    rw [List.eq_of_mem_replicate hc]
    decide
  unfold DecimalStyle.layoutPositional
  simp only
  split
  · rw [String.toList_append, String.toList_ofList]
    refine (hdigits.append (hzeros _)).append (List.all_eq_true.mp ?_)
    split <;> decide
  · split
    next hplaces =>
        -- at least one digit stands before the point
        obtain ⟨c, rest, hsplit, hc⟩ := hdigits.starts
        obtain ⟨kept, hkept⟩ : ∃ kept, d.digits.length - (-d.exponent).toNat = kept + 1 :=
          ⟨d.digits.length - (-d.exponent).toNat - 1, by omega⟩
        have hwhole : IsMagnitude (d.digits.take (d.digits.length - (-d.exponent).toNat)) := by
          refine ⟨⟨c, rest.take kept, ?_, hc⟩, fun e he => ?_⟩
          · rw [hkept, hsplit, List.take_succ_cons]
          · exact hdigits.characters e (List.mem_of_mem_take he)
        simp only [String.toList_append, String.toList_ofList]
        refine (hwhole.append (List.all_eq_true.mp (by decide))).append fun e he => ?_
        exact hdigits.characters e (List.mem_of_mem_drop he)
    next =>
        simp only [String.toList_append, String.toList_ofList]
        have hzero : IsMagnitude "0.".toList :=
          ⟨⟨'0', ['.'], by simp, by decide⟩, List.all_eq_true.mp (by decide)⟩
        refine hzero.append fun e he => ?_
        rcases List.mem_append.mp he with he | he
        · exact hzeros _ e he
        · exact hdigits.characters e he

theorem isMagnitude_layoutExponent (d : Decimal) :
    IsMagnitude (DecimalStyle.layoutExponent d).toList := by
  have hdigits : IsMagnitude d.digits := isMagnitude_toDigits d.coefficient
  have hmark : ∀ c ∈ (if d.leadingExponent < 0 then "e-" else "e+").toList, isNumeral c = true := by
    refine List.all_eq_true.mp ?_
    split <;> decide
  have hexponent : ∀ c ∈ (Nat.repr d.leadingExponent.natAbs).toList, isNumeral c = true := by
    rw [Nat.toList_repr]
    exact (isMagnitude_toDigits _).characters
  unfold DecimalStyle.layoutExponent
  simp only [String.toList_append]
  refine (IsMagnitude.append ?_ hmark).append hexponent
  obtain ⟨c, rest, hsplit, hc⟩ := hdigits.starts
  rw [hsplit]
  have hall : ∀ e ∈ c :: rest, isNumeral e = true := hsplit ▸ hdigits.characters
  cases rest with
  | nil => exact ⟨⟨c, [], by simp, hc⟩, by simpa using hall⟩
  | cons second more =>
      have hpoint : isNumeral '.' = true := by decide
      refine ⟨⟨c, '.' :: second :: more, by simp, hc⟩, ?_⟩
      simpa [hpoint] using hall

/-- Every number is written as a magnitude behind its sign. -/
theorem exists_magnitude (n : Number) :
    ∃ negative magnitude, n.render.toList = signed negative magnitude ∧ IsMagnitude magnitude := by
  cases n with
  | integer value fits =>
      refine ⟨decide (value < 0), Nat.toDigits 10 value.natAbs, ?_, isMagnitude_toDigits _⟩
      by_cases hnegative : value < 0 <;> simp [Number.render, signed, hnegative]
  | float value =>
      have hsign : ∀ text : String, ((if value.negative then "-" else "") ++ text).toList =
          signed value.negative text.toList := by
        intro text
        cases value.negative <;> simp [signed]
      simp only [Number.render, DecimalStyle.render, hsign]
      refine ⟨value.negative, _, rfl, ?_⟩
      split
      · exact isMagnitude_layoutPositional _ _
      · exact isMagnitude_layoutExponent _

/-! ## Reading a number -/

theorem isSpace_of_isDigit {c : Char} (h : c.isDigit = true) : isSpace c = false := by
  rw [Bool.eq_false_iff]
  intro hspace
  simp only [isSpace, Bool.or_eq_true, decide_eq_true_eq] at hspace
  rcases hspace with ((rfl | rfl) | rfl) | rfl <;> exact absurd h (by decide)

/-- A digit or a minus starts a number. -/
theorem readDraft?_signed {negative : Bool} {magnitude : List Char} {depth : Nat}
    (h : IsMagnitude magnitude) :
    readDraft? (fuel + 1) depth (signed negative magnitude ++ rest) =
      readNumber? negative (magnitude ++ rest) := by
  obtain ⟨c, more, rfl, hc⟩ := h.starts
  cases negative with
  | true =>
      have hspaces : skipSpaces (signed true (c :: more) ++ rest) = '-' :: (c :: more ++ rest) := by
        simp [skipSpaces, signed, isSpace]
      unfold readDraft?
      rw [hspaces]
      split <;> simp_all
  | false =>
      have hspaces : skipSpaces (signed false (c :: more) ++ rest) = c :: (more ++ rest) := by
        simp [skipSpaces, signed, isSpace_of_isDigit hc]
      unfold readDraft?
      rw [hspaces]
      split <;> simp_all

theorem isSpace_of_isNumeral {c : Char} (h : isNumeral c = true) : isSpace c = false := by
  simp only [isNumeral, Bool.or_eq_true, decide_eq_true_eq] at h
  rcases h with (((h | rfl) | rfl) | rfl) | rfl
  · exact isSpace_of_isDigit h
  · decide
  · decide
  · decide
  · decide

end Json

namespace Number

/-- What the document text of the number spells is the number. -/
def ReadsBack (n : Number) : Prop :=
  Draft.read? n.render = some (.number n)

variable {n : Number} {negative : Bool} {magnitude : List Char}

theorem readsBack_iff (htext : n.render.toList = Json.signed negative magnitude)
    (hmagnitude : Json.IsMagnitude magnitude) :
    n.ReadsBack ↔ Json.readNumber? negative magnitude = some (.number n, []) := by
  have hread : ∀ fuel, Json.readDraft? (fuel + 1) Json.documentDepth n.render.toList =
      Json.readNumber? negative magnitude := by
    intro fuel
    have h : Json.readDraft? (fuel + 1) Json.documentDepth
        (Json.signed negative magnitude ++ []) = Json.readNumber? negative (magnitude ++ []) :=
      Json.readDraft?_signed hmagnitude
    rwa [List.append_nil, List.append_nil, ← htext] at h
  unfold ReadsBack Draft.read? Draft.readWithin?
  simp only [hread]
  constructor
  · intro h
    split at h
    next draft left hnumber =>
        split at h
        next hleft =>
            obtain rfl := Option.some.inj h
            -- nothing of which numbers are written is a blank
            have hempty : left = [] := by
              cases left with
              | nil => rfl
              | cons c more =>
                  have hmem : c ∈ magnitude :=
                    (Json.suffix_of_readNumber? hnumber).subset List.mem_cons_self
                  have hspace := Json.isSpace_of_isNumeral (hmagnitude.characters c hmem)
                  simp [Json.skipSpaces, hspace] at hleft
            rw [hnumber, hempty]
        next => exact absurd h (by simp)
    next => exact absurd h (by simp)
  · intro h
    simp [h, Json.skipSpaces]

/-- Integers read back. -/
theorem readsBack_integer (value : Int) (fits : IsDocumentInteger value) :
    (integer value fits).ReadsBack := by
  have htext : (integer value fits).render.toList =
      Json.signed (decide (value < 0)) (Nat.toDigits 10 value.natAbs) := by
    by_cases hnegative : value < 0 <;> simp [render, Json.signed, hnegative]
  exact (readsBack_iff htext (Json.isMagnitude_toDigits _)).mpr (Json.readNumber?_integer fits)

end Number

namespace Json

/-- A number that reads back does so before everything that does not go on with it. -/
theorem readDraft?_number {n : Number} {depth : Nat} (h : n.ReadsBack) (hrest : Stops rest) :
    readDraft? (fuel + 1) depth (n.render.toList ++ rest) = some (.number n, rest) := by
  obtain ⟨negative, magnitude, htext, hmagnitude⟩ := exists_magnitude n
  rw [htext, readDraft?_signed hmagnitude]
  exact readNumber?_append ((Number.readsBack_iff htext hmagnitude).mp h) hrest

end Json
end LiveSchema
