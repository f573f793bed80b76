import LiveSchema.Proofs.Json.Roundtrip
import LiveSchema.Proofs.Text

/-!
# Text behind a document

The reader stops where a value ends.  An opening brace behind it never goes on with the value, so what
was read before is read again, and the brace is left with all that follows it: a document with a brace
behind it is not well formed.
-/

namespace LiveSchema
namespace Json

variable {fuel larger depth : Nat} {text left : List Char} {draft : Draft} (more : List Char)

/-! ## Blanks and words -/

theorem stops_brace : Stops ('\x7b' :: more) :=
  stops_cons (by decide) (by decide) (by decide) (by decide)

@[simp] theorem skipSpaces_append_brace (text : List Char) :
    skipSpaces (text ++ '\x7b' :: more) = skipSpaces text ++ '\x7b' :: more := by
  induction text with
  | nil => exact skipSpaces_cons (by decide) more
  | cons c text ih =>
      cases hspace : isSpace c with
      | true => simpa [skipSpaces, hspace] using ih
      | false => simp [skipSpaces, hspace]

theorem isBlank_of_isSpace {c : Char} (h : isSpace c = true) : Text.isBlank c = true := by
  simp only [isSpace, Bool.or_eq_true, decide_eq_true_eq] at h
  rcases h with ((rfl | rfl) | rfl) | rfl <;> decide

theorem afterWord?_eq_some {word : String} :
    afterWord? word text = some left ↔ text = word.toList ++ left := by
  constructor
  · intro h
    unfold afterWord? at h
    split at h
    next hprefix =>
        obtain ⟨behind, rfl⟩ := List.isPrefixOf_iff_prefix.mp hprefix
        rw [← String.length_toList, List.drop_left, Option.some.injEq] at h
        rw [h]
    next => exact absurd h (by simp)
  · rintro rfl
    exact afterWord?_append word left

theorem afterWord?_append_of_eq_some {word : String} (h : afterWord? word text = some left)
    (more : List Char) : afterWord? word (text ++ more) = some (left ++ more) := by
  rw [afterWord?_eq_some] at h ⊢
  rw [h, List.append_assoc]

/-- A word is found again, and it stands for the same value. -/
theorem map_afterWord?_append {word : String} {value : Draft}
    (h : (afterWord? word text).map (fun rest => (value, rest)) = some (draft, left))
    (more : List Char) :
    (afterWord? word (text ++ more)).map (fun rest => (value, rest)) =
      some (draft, left ++ more) := by
  obtain ⟨behind, hword, hresult⟩ := Option.map_eq_some_iff.mp h
  cases hresult
  rw [afterWord?_append_of_eq_some hword, Option.map_some]

/-- What is not a brace at the start of the longer text is there in the text itself. -/
theorem eq_cons_of_append_brace {c : Char} {behind : List Char} (hc : '\x7b' ≠ c)
    (h : text ++ '\x7b' :: more = c :: behind) :
    ∃ rest, text = c :: rest ∧ rest ++ '\x7b' :: more = behind := by
  cases text with
  | nil => exact absurd (List.cons.inj h).1 hc
  | cons d rest =>
      obtain ⟨rfl, hbehind⟩ := List.cons.inj h
      exact ⟨rest, rfl, hbehind⟩

/-! ## Strings -/

theorem readUnit?_append {unit : Nat} (h : readUnit? text = some (unit, left)) :
    readUnit? (text ++ more) = some (unit, left ++ more) := by
  unfold readUnit? at h
  split at h
  next a b c d rest =>
      simp only [Option.bind_eq_bind, Option.bind_eq_some_iff] at h
      obtain ⟨value, hvalue, hsame⟩ := h
      cases hsame
      simp [readUnit?, hvalue]
  next => exact absurd h (by simp)

theorem readCodePoint?_append_brace {c : Option Char}
    (h : readCodePoint? text = some (c, left)) :
    readCodePoint? (text ++ '\x7b' :: more) = some (c, left ++ '\x7b' :: more) := by
  unfold readCodePoint? at h ⊢
  simp only [Option.bind_eq_bind, Option.bind_eq_some_iff, Prod.exists] at h
  obtain ⟨unit, rest, hunit, hrest⟩ := h
  rw [readUnit?_append _ hunit]
  simp only [Option.bind_eq_bind, Option.bind_some]
  split at hrest
  next hhigh =>
      rw [if_pos hhigh]
      split at hrest
      next behind =>
          simp only [Option.bind_eq_some_iff, Prod.exists] at hrest
          obtain ⟨second, further, hsecond, hlow⟩ := hrest
          simp only [List.cons_append, readUnit?_append _ hsecond, Option.bind_some]
          split at hlow
          next hpair =>
              cases hlow
              rw [if_pos hpair]
          next hpair =>
              cases hlow
              rw [if_neg hpair]
              rfl
      next hescape =>
          cases hrest
          -- a brace does not complete an escape that is not there
          split
          next behind hbehind =>
              obtain ⟨rest, rfl, hrest⟩ := eq_cons_of_append_brace more (by decide) hbehind
              obtain ⟨rest, rfl, -⟩ := eq_cons_of_append_brace more (by decide) hrest
              exact absurd rfl (hescape rest)
          next => rfl
  next hhigh =>
      rw [if_neg hhigh]
      split at hrest
      next hlow =>
          cases hrest
          rw [if_pos hlow]
      next hlow =>
          cases hrest
          rw [if_neg hlow]

theorem readEscape?_append_brace {c : Option Char} (h : readEscape? text = some (c, left)) :
    readEscape? (text ++ '\x7b' :: more) = some (c, left ++ '\x7b' :: more) := by
  unfold readEscape? at h
  split at h
  case h_9 rest => exact readCodePoint?_append_brace more h
  case h_10 => exact absurd h (by simp)
  all_goals
    cases h
    rfl

theorem readString?_append_brace {done : Option (List Char)} {content : Option String}
    (h : readString? fuel done text = some (content, left)) (hfuel : fuel ≤ larger) :
    readString? larger done (text ++ '\x7b' :: more) = some (content, left ++ '\x7b' :: more) := by
  induction fuel generalizing done text larger with
  | zero => exact absurd h (by simp [readString?])
  | succ fuel ih =>
      obtain ⟨larger, rfl⟩ : ∃ n, larger = n + 1 := ⟨larger - 1, by omega⟩
      have hless : fuel ≤ larger := Nat.le_of_succ_le_succ hfuel
      unfold readString? at h
      split at h
      next hzero => exact absurd hzero (by simp)
      next => exact absurd h (by simp)
      next hsame =>
          cases hsame
          cases h
          simp [readString?]
      next hsame =>
          cases hsame
          simp only [Option.bind_eq_bind, Option.bind_eq_some_iff, Prod.exists] at h
          obtain ⟨c, rest, hescape, hrest⟩ := h
          rw [List.cons_append, readString?]
          simp only [readEscape?_append_brace more hescape, Option.bind_eq_bind, Option.bind_some]
          exact ih hrest hless
      next c rest hquote hslash hsame =>
          cases hsame
          split at h
          next => exact absurd h (by simp)
          next hcontrol =>
              rw [List.cons_append, readString?]
              · rw [if_neg hcontrol]
                exact ih h hless
              · exact hquote
              · exact hslash

/-! ## Values -/

/-- What starts with no mark of another value is read as a number. -/
theorem readDraft?_of_number {c : Char} {rest : List Char} (hskip : skipSpaces text = c :: rest)
    (hmark : c ∉ ['[', '\x7b', '"', '-', 'n', 't', 'f']) :
    readDraft? (fuel + 1) depth text = readNumber? false (c :: rest) := by
  unfold readDraft?
  rw [hskip]
  split
  case h_1 => contradiction
  case h_9 => rfl
  all_goals
    next hstart =>
      obtain rfl := (List.cons.inj hstart).1
      exact absurd (by decide) hmark

/-- What the readers find with some fuel they also find with more fuel and before a brace. -/
structure Steady (more : List Char) (fuel : Nat) : Prop where
  draft : ∀ larger depth text draft left, fuel ≤ larger →
    readDraft? fuel depth text = some (draft, left) →
      readDraft? larger depth (text ++ '\x7b' :: more) = some (draft, left ++ '\x7b' :: more)
  items : ∀ larger depth done text draft left, fuel ≤ larger →
    readItems? fuel depth done text = some (draft, left) →
      readItems? larger depth done (text ++ '\x7b' :: more) = some (draft, left ++ '\x7b' :: more)
  entries : ∀ larger depth done text draft left, fuel ≤ larger →
    readEntries? fuel depth done text = some (draft, left) →
      readEntries? larger depth done (text ++ '\x7b' :: more) =
        some (draft, left ++ '\x7b' :: more)

theorem steady_zero : Steady more 0 where
  draft _ _ _ _ _ _ h := absurd h (by simp [readDraft?])
  items _ _ _ _ _ _ _ h := absurd h (by simp [readItems?])
  entries _ _ _ _ _ _ _ h := absurd h (by simp [readEntries?])

variable {more}

theorem Steady.items_succ (h : Steady more fuel) {done : List Draft}
    (hread : readItems? (fuel + 1) depth done text = some (draft, left)) (hfuel : fuel ≤ larger) :
    readItems? (larger + 1) depth done (text ++ '\x7b' :: more) =
      some (draft, left ++ '\x7b' :: more) := by
  rw [readItems?] at hread ⊢
  simp only [Option.bind_eq_bind, Option.bind_eq_some_iff, Prod.exists] at hread
  obtain ⟨item, rest, hitem, hrest⟩ := hread
  rw [h.draft larger depth text item rest hfuel hitem]
  simp only [Option.bind_eq_bind, Option.bind_some, skipSpaces_append_brace]
  split at hrest
  next behind hbehind =>
      rw [hbehind]
      exact h.items larger depth _ behind draft left hfuel hrest
  next behind hbehind =>
      rw [hbehind]
      cases hrest
      rfl
  next => exact absurd hrest (by simp)

theorem Steady.entries_succ (h : Steady more fuel) {done : Option (List (String × Draft))}
    (hread : readEntries? (fuel + 1) depth done text = some (draft, left)) (hfuel : fuel ≤ larger) :
    readEntries? (larger + 1) depth done (text ++ '\x7b' :: more) =
      some (draft, left ++ '\x7b' :: more) := by
  unfold readEntries? at hread ⊢
  split at hread
  next fewer start hsame hkey =>
      obtain rfl := Nat.succ.inj hsame
      simp only [Option.bind_eq_bind, Option.bind_eq_some_iff, Prod.exists] at hread
      obtain ⟨key, rest, hname, hrest⟩ := hread
      rw [skipSpaces_append_brace, hkey, List.cons_append]
      simp only [readString?_append_brace more hname (Nat.succ_le_succ hfuel),
        Option.bind_eq_bind, Option.bind_some, skipSpaces_append_brace]
      split at hrest
      next behind hcolon =>
          rw [hcolon, List.cons_append]
          simp only [Option.bind_eq_some_iff, Prod.exists] at hrest
          obtain ⟨value, further, hvalue, hrest⟩ := hrest
          simp only [h.draft larger depth behind value further hfuel hvalue, Option.bind_some,
            skipSpaces_append_brace]
          split at hrest
          next last hcomma =>
              rw [hcomma]
              exact h.entries larger depth _ last draft left hfuel hrest
          next last hclosing =>
              rw [hclosing]
              cases hrest
              rfl
          next => exact absurd hrest (by simp)
      next => exact absurd hrest (by simp)
  next => exact absurd hread (by simp)

theorem Steady.array_succ (h : Steady more fuel) {rest : List Char}
    (hskip : skipSpaces text = '[' :: rest)
    (hread : readDraft? (fuel + 1) depth text = some (draft, left)) (hfuel : fuel ≤ larger) :
    readDraft? (larger + 1) depth (text ++ '\x7b' :: more) =
      some (draft, left ++ '\x7b' :: more) := by
  unfold readDraft? at hread ⊢
  rw [skipSpaces_append_brace, hskip, List.cons_append]
  rw [hskip] at hread
  simp only [skipSpaces_append_brace] at hread ⊢
  split at hread
  next behind hclosing =>
      rw [hclosing]
      cases hread
      rfl
  next hopen =>
      split
      next behind hclosing =>
          obtain ⟨further, hfurther, -⟩ := eq_cons_of_append_brace more (by decide) hclosing
          exact absurd hfurther (hopen further)
      next =>
          simp only [Option.bind_eq_bind, Option.bind_eq_some_iff, Prod.exists] at hread ⊢
          obtain ⟨inner, behind, hinner, hresult⟩ := hread
          cases hresult
          exact ⟨inner, _, h.items larger _ _ _ inner _ hfuel hinner, rfl⟩

theorem Steady.object_succ (h : Steady more fuel) {rest : List Char}
    (hskip : skipSpaces text = '\x7b' :: rest)
    (hread : readDraft? (fuel + 1) depth text = some (draft, left)) (hfuel : fuel ≤ larger) :
    readDraft? (larger + 1) depth (text ++ '\x7b' :: more) =
      some (draft, left ++ '\x7b' :: more) := by
  unfold readDraft? at hread ⊢
  rw [skipSpaces_append_brace, hskip, List.cons_append]
  rw [hskip] at hread
  simp only [skipSpaces_append_brace] at hread ⊢
  split at hread
  next behind hclosing =>
      rw [hclosing]
      cases hread
      rfl
  next hopen =>
      split
      next behind hclosing =>
          obtain ⟨further, hfurther, -⟩ := eq_cons_of_append_brace more (by decide) hclosing
          exact absurd hfurther (hopen further)
      next =>
          simp only [Option.bind_eq_bind, Option.bind_eq_some_iff, Prod.exists] at hread ⊢
          obtain ⟨inner, behind, hinner, hresult⟩ := hread
          cases hresult
          exact ⟨inner, _, h.entries larger _ _ _ inner _ hfuel hinner, rfl⟩

theorem Steady.draft_succ (h : Steady more fuel)
    (hread : readDraft? (fuel + 1) depth text = some (draft, left)) (hfuel : fuel ≤ larger) :
    readDraft? (larger + 1) depth (text ++ '\x7b' :: more) =
      some (draft, left ++ '\x7b' :: more) := by
  have hwhole := hread
  unfold readDraft? at hread
  split at hread
  next hzero => exact absurd hzero (by simp)
  next hskip => exact h.array_succ hskip hwhole hfuel
  next hskip => exact h.object_succ hskip hwhole hfuel
  next fewer rest hsame hskip =>
      obtain rfl := Nat.succ.inj hsame
      unfold readDraft?
      rw [skipSpaces_append_brace, hskip, List.cons_append]
      simp only [Option.map_eq_some_iff, Prod.exists] at hread ⊢
      obtain ⟨content, behind, hcontent, hresult⟩ := hread
      cases hresult
      exact ⟨content, _, readString?_append_brace more hcontent (Nat.succ_le_succ hfuel), rfl⟩
  next hskip =>
      unfold readDraft?
      rw [skipSpaces_append_brace, hskip, List.cons_append]
      exact readNumber?_append hread (stops_brace more)
  next hskip =>
      unfold readDraft?
      rw [skipSpaces_append_brace, hskip, List.cons_append]
      exact map_afterWord?_append hread _
  next hskip =>
      unfold readDraft?
      rw [skipSpaces_append_brace, hskip, List.cons_append]
      exact map_afterWord?_append hread _
  next hskip =>
      unfold readDraft?
      rw [skipSpaces_append_brace, hskip, List.cons_append]
      exact map_afterWord?_append hread _
  next hlist hobject hquote hminus hnull htrue hfalse =>
      -- the text is a number, so it starts with none of the characters of the other cases
      obtain ⟨c, rest, hskip⟩ : ∃ c rest, skipSpaces text = c :: rest := by
        refine List.exists_cons_of_ne_nil fun hnone => ?_
        have hempty : readNumber? false [] = none := by decide
        rw [hnone, hempty] at hread
        exact absurd hread (by simp)
      have hmark : c ∉ ['[', '\x7b', '"', '-', 'n', 't', 'f'] := by
        intro hmem
        simp only [List.mem_cons, List.not_mem_nil, or_false] at hmem
        rcases hmem with rfl | rfl | rfl | rfl | rfl | rfl | rfl
        exacts [hlist rest hskip, hobject rest hskip, hquote rest hskip, hminus rest hskip,
          hnull rest hskip, htrue rest hskip, hfalse rest hskip]
      have hlonger : skipSpaces (text ++ '\x7b' :: more) = c :: (rest ++ '\x7b' :: more) := by
        rw [skipSpaces_append_brace, hskip, List.cons_append]
      rw [hskip] at hread
      rw [readDraft?_of_number hlonger hmark]
      exact readNumber?_append hread (stops_brace more)

/-- What is read before the end of a text is read before a brace, and the brace is left. -/
theorem steady (more : List Char) (fuel : Nat) : Steady more fuel := by
  induction fuel with
  | zero => exact steady_zero more
  | succ fuel ih =>
      have hlarger : ∀ {larger}, fuel + 1 ≤ larger → ∃ n, larger = n + 1 ∧ fuel ≤ n :=
        fun {larger} h => ⟨larger - 1, by omega, by omega⟩
      constructor
      · intro larger depth text draft left hfuel hread
        obtain ⟨larger, rfl, hless⟩ := hlarger hfuel
        exact ih.draft_succ hread hless
      · intro larger depth done text draft left hfuel hread
        obtain ⟨larger, rfl, hless⟩ := hlarger hfuel
        exact ih.items_succ hread hless
      · intro larger depth done text draft left hfuel hread
        obtain ⟨larger, rfl, hless⟩ := hlarger hfuel
        exact ih.entries_succ hread hless

/-! ## Documents -/

/-- Nothing is read from a text that starts with a character that no value starts with. -/
theorem readDraft?_eq_none {c : Char} {rest : List Char} (hskip : skipSpaces text = c :: rest)
    (hdigit : c.isDigit = false) (hmark : c ∉ ['[', '\x7b', '"', '-', 'n', 't', 'f']) :
    readDraft? fuel depth text = none := by
  have hwhole : readWhole? (c :: rest) = none := by
    unfold readWhole?
    split
    next hzero => exact absurd hdigit (by rw [(List.cons.inj hzero).1]; decide)
    next => simp [hdigit]
  cases fuel with
  | zero => simp [readDraft?]
  | succ fuel => simp [readDraft?_of_number hskip hmark, readNumber?, hwhole]

end Json

namespace Draft

variable {text : List Char} {draft : Draft}

/-- A document with a brace behind it is not well formed. -/
theorem read?_append_brace (h : read? (String.ofList text) = some draft) (more : List Char) :
    read? (String.ofList (text ++ '\x7b' :: more)) = none := by
  unfold read? readWithin? at h ⊢
  simp only [String.toList_ofList] at h ⊢
  split at h
  next found left hfound =>
      have hfuel : 2 * text.length + 2 ≤ 2 * (text ++ '\x7b' :: more).length + 2 := by
        rw [List.length_append]
        omega
      rw [(Json.steady more _).draft _ _ _ _ _ hfuel hfound]
      simp
  next => exact absurd h (by simp)

/-- Other blanks than those between tokens do not start a document. -/
theorem read?_eq_none_of_blank (hblank : ∀ c ∈ text, Text.isBlank c = true)
    (hspace : ¬text.all Json.isSpace) (more : List Char) :
    read? (String.ofList (text ++ more)) = none := by
  have hkept : Json.skipSpaces text ≠ [] := by
    rw [Json.skipSpaces, ne_eq, List.dropWhile_eq_nil_iff, ← List.all_eq_true]
    exact hspace
  obtain ⟨c, rest, hskip⟩ := List.exists_cons_of_ne_nil hkept
  have hc : Text.isBlank c = true :=
    hblank c ((List.dropWhile_sublist _).subset (by rw [← Json.skipSpaces, hskip]; simp))
  have hskip' : Json.skipSpaces (text ++ more) = c :: (rest ++ more) := by
    rw [Json.skipSpaces] at hskip ⊢
    rw [List.dropWhile_append, hskip]
    rfl
  have hdigit : c.isDigit = false := by
    rw [Bool.eq_false_iff]
    exact fun h => absurd hc (by simp [Text.isBlank_of_isDigit h])
  have hmark : c ∉ ['[', '\x7b', '"', '-', 'n', 't', 'f'] := by
    intro hmem
    simp only [List.mem_cons, List.not_mem_nil, or_false] at hmem
    rcases hmem with rfl | rfl | rfl | rfl | rfl | rfl | rfl <;> exact absurd hc (by decide)
  simp [read?, readWithin?, Json.readDraft?_eq_none hskip' hdigit hmark]

end Draft
end LiveSchema
