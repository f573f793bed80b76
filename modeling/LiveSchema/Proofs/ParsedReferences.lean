import LiveSchema.Proofs.TypeText.Meaning

/-!
# Parsed type references

Reading a text in a registry succeeds on the texts of the grammar all of whose words can be understood,
and gives the reference that the text stands for.  On another text of the grammar it complains about
the leftmost word that cannot be understood, at the byte where this word begins.
-/

namespace LiveSchema
namespace TypeText

/-! ## Where the words stand -/

/-- The words stand in a text that begins at the byte `start`, each behind those before it. -/
structure Stand (start : Nat) (text : List Char) (words : List Placed) : Prop where
  proper : ∀ word ∈ words, word.token.IsProper
  placed : ∀ word ∈ words, ∃ before behind, text = before ++ (word.token.spelling ++ behind) ∧
    word.offset = start + width before
  ordered : words.Pairwise fun word later => word.offset < later.offset

theorem width_pos {text : List Char} (h : text ≠ []) : 0 < width text := by
  obtain ⟨c, rest, rfl⟩ := List.exists_cons_of_ne_nil h
  have := c.utf8Size_pos
  rw [width_cons]
  omega

theorem Token.IsProper.width_pos {token : Token} (h : token.IsProper) :
    0 < width token.spelling := by
  refine TypeText.width_pos ?_
  cases token with
  | identifier name =>
      obtain ⟨first, rest, hname, -, -⟩ := h
      simp [spelling, hname]
  | digits run => exact h.1
  | opening => simp [spelling]
  | comma => simp [spelling]
  | closing => simp [spelling]
  | stray character => simp [spelling]

namespace Stand

variable {start : Nat} {text behind : List Char} {words later : List Placed}

theorem nil (start : Nat) (text : List Char) : Stand start text [] where
  proper := by simp
  placed := by simp
  ordered := .nil

theorem singleton (token : Token) (h : token.IsProper) (start : Nat) :
    Stand start token.spelling [⟨token, start⟩] where
  proper := by simpa using h
  placed := by
    intro word hword
    obtain rfl := List.mem_singleton.mp hword
    exact ⟨[], [], by simp, rfl⟩
  ordered := by simp

/-- Words stand within their text. -/
theorem bounds (h : Stand start text words) {word : Placed} (hword : word ∈ words) :
    start ≤ word.offset ∧ word.offset < start + width text := by
  obtain ⟨before, behind, rfl, hoffset⟩ := h.placed word hword
  have := (h.proper word hword).width_pos
  simp only [width_append]
  omega

theorem append (h : Stand start text words) (hlater : Stand (start + width text) behind later) :
    Stand start (text ++ behind) (words ++ later) where
  proper word hword := (List.mem_append.mp hword).elim (h.proper word) (hlater.proper word)
  placed word hword := by
    rcases List.mem_append.mp hword with hword | hword
    · obtain ⟨before, after, rfl, hoffset⟩ := h.placed word hword
      exact ⟨before, after ++ behind, by simp, hoffset⟩
    · obtain ⟨before, after, rfl, hoffset⟩ := hlater.placed word hword
      exact ⟨text ++ before, after, by simp, by rw [hoffset, width_append, Nat.add_assoc]⟩
  ordered := by
    refine List.pairwise_append.mpr ⟨h.ordered, hlater.ordered, fun word hword other hother => ?_⟩
    exact Nat.lt_of_lt_of_le (h.bounds hword).2 (hlater.bounds hother).1

/-- More text in front. -/
theorem after (before : List Char) (h : Stand (start + width before) text words) :
    Stand start (before ++ text) words := by
  simpa using (nil start before).append h

/-- More text behind. -/
theorem before (h : Stand start text words) (behind : List Char) :
    Stand start (text ++ behind) words := by
  simpa using h.append (nil _ behind)

end Stand

theorem Tree.argumentWords_cons (argument : TreeArgument) (rest : List TreeArgument) :
    Tree.argumentWords (argument :: rest) =
      Tree.argumentWords [argument] ++ Tree.argumentWords rest := by
  cases argument <;> simp [Tree.argumentWords]

mutual

theorem SpellsType.stand {start : Nat} {text : List Char} {tree : Tree} :
    SpellsType start text tree → Stand start text tree.words
  | .name hname => by
    rw [Tree.words, Tree.argumentWords]
    exact .singleton (.identifier _) hname start
  | .applied hname hgap harguments => by
    rw [Tree.words]
    exact (Stand.singleton (.identifier _) hname start).append
      (.after _ (.after ['<'] harguments.stand))

theorem SpellsArgument.stand {start : Nat} {text : List Char} {argument : TreeArgument} :
    SpellsArgument start text argument → Stand start text (Tree.argumentWords [argument])
  | .size hdigits => by
    rw [Tree.argumentWords, Tree.argumentWords]
    exact .singleton (.digits _) hdigits start
  | .type htree => by
    rw [Tree.argumentWords, Tree.argumentWords, List.append_nil]
    exact htree.stand

theorem SpellsArguments.stand {start : Nat} {text : List Char} {arguments : List TreeArgument} :
    SpellsArguments start text arguments → Stand start text (Tree.argumentWords arguments)
  | .last hbefore hafter hargument => (hargument.stand.before _).after _
  | .more hbefore hafter hargument hfurther => by
    rw [Tree.argumentWords_cons]
    exact .after _ (hargument.stand.append (.after _ (.after [','] hfurther.stand)))

end

/-- The words of a text stand in it, from left to right. -/
theorem Spells.stand {text : List Char} {tree : Tree} (h : Spells text tree) :
    Stand 0 text tree.words := by
  obtain ⟨before, inside, after, rfl, -, -, hspells⟩ := h
  rw [← Nat.zero_add (width before)] at hspells
  exact (hspells.stand.before after).after before

/-! ## What reading a text gives -/

variable {registry : Registry} {tree : Tree}

/-- A tree stands for a reference just if there is no complaint about its words. -/
theorem exists_denotes_iff : (∃ reference, Denotes registry tree reference) ↔
    ∀ word ∈ tree.words, word.complaint? registry = none := by
  rw [← List.findSome?_eq_none_iff]
  have hanswer := tree.isAnswer_resolve registry
  constructor
  · rintro ⟨reference, hdenotes⟩
    rw [hdenotes.resolve_eq] at hanswer
    exact (IsAnswer.ok_iff.mp hanswer).1
  · intro hnone
    cases hresolve : tree.resolve registry with
    | ok reference => exact ⟨reference, Tree.resolve_eq_ok_iff.mp hresolve⟩
    | error error =>
        rw [hresolve, IsAnswer.error_iff, hnone] at hanswer
        cases hanswer

/-- The leftmost of words that stand in a text. -/
theorem Stand.offset_le {start : Nat} {text : List Char} {before behind : List Placed}
    {word other : Placed} (h : Stand start text (before ++ word :: behind))
    (hother : other ∈ before ++ word :: behind) (hnew : other ∉ before) :
    word.offset ≤ other.offset := by
  have hordered := (List.pairwise_cons.mp (List.pairwise_append.mp h.ordered).2.1).1
  rcases List.mem_cons.mp ((List.mem_append.mp hother).resolve_left hnew) with rfl | hbehind
  · exact Nat.le_refl _
  · exact Nat.le_of_lt (hordered other hbehind)

/-- Reading succeeds exactly on the texts of the grammar all of whose words can be understood, and gives
what they stand for.  Where a text of the grammar is refused, the error is the complaint about the
leftmost word that has one, and names the byte of the text at which this word begins. -/
theorem parse_exact (registry : Registry) (text : String) :
    (∀ reference, parse registry text = .ok reference ↔
      ∃ tree, Spells text.toList tree ∧ Denotes registry tree reference) ∧
    ((∃ reference, parse registry text = .ok reference) ↔
      ∃ tree, Spells text.toList tree ∧
        ∀ word ∈ tree.words, word.complaint? registry = none) ∧
    ∀ tree, Spells text.toList tree → ∀ error, parse registry text = .error error →
      ∃ word ∈ tree.words, word.complaint? registry = some error ∧ error.offset = word.offset ∧
        (∀ other ∈ tree.words, other.complaint? registry ≠ none → word.offset ≤ other.offset) ∧
        ∃ before behind, text.toList = before ++ (word.token.spelling ++ behind) ∧
          word.offset = width before := by
  refine ⟨fun reference => parse_eq_ok_iff, ?_, fun tree hspells error herror => ?_⟩
  · simp only [parse_eq_ok_iff, ← exists_denotes_iff]
    constructor
    · rintro ⟨reference, tree, hspells, hdenotes⟩
      exact ⟨tree, hspells, reference, hdenotes⟩
    · rintro ⟨tree, hspells, reference, hdenotes⟩
      exact ⟨reference, tree, hspells, hdenotes⟩
  · have hanswer := tree.isAnswer_resolve registry
    rw [← parse_of_spells hspells, herror, IsAnswer.error_iff] at hanswer
    obtain ⟨before, word, behind, hwords, hcomplaint, hbefore⟩ :=
      List.findSome?_eq_some_iff.mp hanswer
    have hstand := hspells.stand
    have hmem : word ∈ tree.words := by simp [hwords]
    obtain ⟨front, rest, htext, hoffset⟩ := hstand.placed word hmem
    refine ⟨word, hmem, hcomplaint, Placed.offset_of_complaint? hcomplaint,
      fun other hother hcomplains => ?_, front, rest, htext, by rw [hoffset, Nat.zero_add]⟩
    rw [hwords] at hstand hother
    exact hstand.offset_le hother fun hearlier => hcomplains (hbefore other hearlier)

/-- Of a type that is not known and a number that is too large behind it, the first is reported. -/
theorem parse_exact_of_unknown_name :
    let text := "map< nope, 18446744073709551616 >"
    let tree : Tree := ⟨0, "map".toList, [.type ⟨5, "nope".toList, []⟩,
      .size 11 "18446744073709551616".toList]⟩
    Spells text.toList tree ∧
      parse Registry.initial text = .error ⟨5, .unknownType "nope"⟩ ∧
      ∃ word ∈ tree.words, word.offset = 5 ∧ ∃ before behind,
        text.toList = before ++ (word.token.spelling ++ behind) ∧ width before = 5 := by
  intro text tree
  have hspells : Spells text.toList tree := by
    have hread : readText text = .ok tree := by
      simp only [text, tree]
      cbv
    exact readText_eq_ok_iff.mp hread
  have herror : parse Registry.initial text = .error ⟨5, .unknownType "nope"⟩ := by
    simp only [text]
    cbv
  obtain ⟨word, hmem, -, hoffset, -, before, behind, htext, hwidth⟩ :=
    (parse_exact Registry.initial text).2.2 tree hspells _ herror
  exact ⟨hspells, herror, word, hmem, hoffset.symm, before, behind, htext, hwidth ▸ hoffset.symm⟩

end TypeText
end LiveSchema
