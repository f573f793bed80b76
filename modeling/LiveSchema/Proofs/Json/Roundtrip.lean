import LiveSchema.Proofs.Json.Spelling
import Mathlib.Data.List.DropRight

/-!
# Reading back what was written

A value that is written in either form is read back as its draft, if its numbers read back and its
containers do not lie too deep inside one another; and the draft is the value again, if no object in
it repeats a key.
-/

namespace LiveSchema

/-! ## The draft of a value -/

namespace Draft

mutual

/-- The draft that spells a value. -/
def ofJson : Json → Draft
  | .null => .null
  | .bool value => .bool value
  | .number n => .number n
  | .string text => .string text
  | .array items => .array (ofItems items)
  | .object entries => .object (ofEntries entries)

def ofItems : List Json → List Draft
  | [] => []
  | item :: rest => ofJson item :: ofItems rest

def ofEntries : List (String × Json) → List (String × Draft)
  | [] => []
  | (key, value) :: rest => (key, ofJson value) :: ofEntries rest

end

theorem ofItems_eq_map (items : List Json) : ofItems items = items.map ofJson := by
  induction items with
  | nil => rfl
  | cons item rest ih => rw [ofItems, List.map_cons, ih]

theorem ofEntries_eq_map (entries : List (String × Json)) :
    ofEntries entries = entries.map fun entry => (entry.1, ofJson entry.2) := by
  induction entries with
  | nil => rfl
  | cons entry rest ih =>
      obtain ⟨key, value⟩ := entry
      rw [ofEntries, List.map_cons, ih]

theorem itemsToJson?_ofJson {items : List Json} (done : List Json)
    (h : ∀ item ∈ items, (ofJson item).toJson? = some item) :
    itemsToJson? done (items.map ofJson) = some (done.reverse ++ items) := by
  induction items generalizing done with
  | nil => simp [itemsToJson?]
  | cons item rest ih =>
      simp only [List.map_cons, itemsToJson?, h item List.mem_cons_self]
      rw [ih _ fun other hother => h other (List.mem_cons_of_mem _ hother)]
      simp

theorem entriesToJson?_ofJson {entries : Entries} (done : Entries)
    (h : ∀ entry ∈ entries, (ofJson entry.2).toJson? = some entry.2) :
    entriesToJson? done (entries.map fun entry => (entry.1, ofJson entry.2)) =
      some (done.reverse ++ entries) := by
  induction entries generalizing done with
  | nil => simp [entriesToJson?]
  | cons entry rest ih =>
      simp only [List.map_cons, entriesToJson?, h entry List.mem_cons_self]
      rw [ih _ fun other hother => h other (List.mem_cons_of_mem _ hother)]
      simp

/-- The draft of a value is that value, unless an object in it repeats a key. -/
theorem toJson?_ofJson {value : Json} (h : value.HasDistinctKeys) :
    (ofJson value).toJson? = some value := by
  induction value using Json.inner_induction with
  | step value ih =>
      cases value with
      | array items =>
          have hitems : itemsToJson? [] (items.map ofJson) = some ([].reverse ++ items) :=
            itemsToJson?_ofJson [] fun item hitem => ih item hitem (h.inner hitem)
          rw [ofJson, ofItems_eq_map, toJson?, hitems]
          rfl
      | object entries =>
          have hentries := entriesToJson?_ofJson [] fun entry hentry =>
            ih entry.2 (List.mem_map_of_mem hentry) (h.inner (List.mem_map_of_mem hentry))
          have hmerge : Entries.merge entries = entries :=
            @Entries.foldl_assign_eq_append [] entries h.keys
          rw [ofJson, ofEntries_eq_map, toJson?, hentries]
          simp [hmerge]
      | _ => rfl

end Draft

namespace Json

variable {layout : Layout} {level fuel depth : Nat} {text blanks rest tail : List Char}

/-! ## Blanks -/

theorem skipSpaces_of_blank (hblanks : ∀ c ∈ blanks, isSpace c = true) (text : List Char) :
    skipSpaces (blanks ++ text) = skipSpaces text :=
  List.dropWhile_append_of_pos hblanks

theorem skipSpaces_cons {c : Char} (h : isSpace c = false) (text : List Char) :
    skipSpaces (c :: text) = c :: text := by
  simp [skipSpaces, h]

theorem length_skipSpaces_le (text : List Char) : (skipSpaces text).length ≤ text.length :=
  (List.dropWhile_sublist _).length_le

theorem stops_of_blank (hblanks : ∀ c ∈ blanks, isSpace c = true) (h : Stops text) :
    Stops (blanks ++ text) := by
  cases blanks with
  | nil => exact h
  | cons c more =>
      have hspace := hblanks c List.mem_cons_self
      simp only [isSpace, Bool.or_eq_true, decide_eq_true_eq] at hspace
      rcases hspace with ((rfl | rfl) | rfl) | rfl
      all_goals exact stops_cons (by decide) (by decide) (by decide) (by decide)

/-- The text of a value starts with neither a blank nor a closing mark. -/
theorem exists_spell_eq_cons (layout : Layout) (level : Nat) (value : Json) :
    ∃ c more, value.spell layout level = c :: more ∧ isSpace c = false ∧ c ≠ ']' ∧ c ≠ '\x7d' := by
  cases value with
  | null => exact ⟨'n', ['u', 'l', 'l'], by simp [spell, renderScalar], by decide⟩
  | bool value =>
      cases value with
      | true => exact ⟨'t', ['r', 'u', 'e'], by simp [spell, renderScalar], by decide⟩
      | false => exact ⟨'f', ['a', 'l', 's', 'e'], by simp [spell, renderScalar], by decide⟩
  | number n =>
      obtain ⟨negative, magnitude, htext, hmagnitude⟩ := exists_magnitude n
      obtain ⟨c, more, rfl, hc⟩ := hmagnitude.starts
      rw [spell, renderScalar, htext]
      · cases negative with
        | true => exact ⟨'-', c :: more, rfl, by decide⟩
        | false =>
            refine ⟨c, more, rfl, isSpace_of_isDigit hc, ?_, ?_⟩
            · rintro rfl
              exact absurd hc (by decide)
            · rintro rfl
              exact absurd hc (by decide)
      all_goals simp
  | string text =>
      refine ⟨'"', escaped text.toList ++ ['"'], ?_, by decide⟩
      rw [spell, renderScalar, toList_quote]
      all_goals simp
  | array items =>
      cases items with
      | nil => exact ⟨'[', [']'], rfl, by decide⟩
      | cons item rest => exact ⟨'[', _, rfl, by decide⟩
  | object entries =>
      cases entries with
      | nil => exact ⟨'\x7b', ['\x7d'], rfl, by decide⟩
      | cons entry rest =>
          obtain ⟨key, value⟩ := entry
          exact ⟨'\x7b', _, rfl, by decide⟩

theorem skipSpaces_spell (layout : Layout) (level : Nat) (value : Json) (rest : List Char) :
    skipSpaces (value.spell layout level ++ rest) = value.spell layout level ++ rest := by
  obtain ⟨c, more, htext, hspace, -⟩ := exists_spell_eq_cons layout level value
  rw [htext, List.cons_append, skipSpaces_cons hspace]

/-! ## Containers -/

/-- The reader takes the text of a value for its draft, wherever the text stands. -/
def IsRead (layout : Layout) (value : Json) : Prop :=
  ∀ level fuel depth text rest, skipSpaces text = value.spell layout level ++ rest →
    2 * text.length < fuel → value.depth ≤ depth → Stops rest →
      readDraft? fuel depth text = some (Draft.ofJson value, rest)

theorem stops_spellItems (items : List Json) (hblanks : ∀ c ∈ blanks, isSpace c = true) :
    Stops (spellItems layout level items ++ (blanks ++ ']' :: tail)) := by
  cases items with
  | nil =>
      rw [spellItems, List.nil_append]
      exact stops_of_blank hblanks
        (stops_cons (by decide) (by decide) (by decide) (by decide))
  | cons item rest =>
      exact stops_cons (by decide) (by decide) (by decide) (by decide)

/-- The items of an array are read up to its end. -/
theorem readItems?_spell {items : List Json} {item : Json} {done : List Draft}
    (hitems : ∀ other ∈ item :: items, IsRead layout other)
    (hdepth : ∀ other ∈ item :: items, other.depth ≤ depth)
    (hblanks : ∀ c ∈ blanks, isSpace c = true)
    (htext : skipSpaces text =
      item.spell layout level ++ (spellItems layout level items ++ (blanks ++ ']' :: tail)))
    (hfuel : 2 * text.length + 1 < fuel) :
    readItems? fuel depth done text =
      some (.array (done.reverse ++ (item :: items).map Draft.ofJson), tail) := by
  induction items generalizing item text done fuel with
  | nil =>
      obtain ⟨fuel, rfl⟩ : ∃ more, fuel = more + 1 := ⟨fuel - 1, by omega⟩
      have hitem := hitems item List.mem_cons_self level fuel depth text _ htext (by omega)
        (hdepth item List.mem_cons_self) (stops_spellItems [] hblanks)
      have hclose : skipSpaces (spellItems layout level [] ++ (blanks ++ ']' :: tail)) =
          ']' :: tail := by
        rw [spellItems, List.nil_append, skipSpaces_of_blank hblanks, skipSpaces_cons (by decide)]
      rw [readItems?, hitem]
      simp [hclose]
  | cons next items ih =>
      obtain ⟨fuel, rfl⟩ : ∃ more, fuel = more + 1 := ⟨fuel - 1, by omega⟩
      have hitem := hitems item List.mem_cons_self level fuel depth text _ htext (by omega)
        (hdepth item List.mem_cons_self) (stops_spellItems (next :: items) hblanks)
      have hcomma : skipSpaces (spellItems layout level (next :: items) ++ (blanks ++ ']' :: tail)) =
          ',' :: (layout.gap level ++ (next.spell layout level ++
            (spellItems layout level items ++ (blanks ++ ']' :: tail)))) := by
        simp [spellItems, skipSpaces_cons, isSpace]
      have hnext : skipSpaces (layout.gap level ++ (next.spell layout level ++
          (spellItems layout level items ++ (blanks ++ ']' :: tail)))) =
            next.spell layout level ++
              (spellItems layout level items ++ (blanks ++ ']' :: tail)) := by
        rw [skipSpaces_of_blank (layout.gap_blank level), skipSpaces_spell]
      -- the item and the comma behind it are at least two characters
      have hlength := length_skipSpaces_le text
      have hshorter : (layout.gap level ++ (next.spell layout level ++
          (spellItems layout level items ++ (blanks ++ ']' :: tail)))).length + 2 ≤ text.length := by
        obtain ⟨c, more, hspell, -⟩ := exists_spell_eq_cons layout level item
        rw [htext, hspell] at hlength
        simp only [spellItems, List.length_append, List.length_cons, List.cons_append] at hlength ⊢
        omega
      have hrest := @ih fuel _ next (Draft.ofJson item :: done)
        (fun other hother => hitems other (List.mem_cons_of_mem _ hother))
        (fun other hother => hdepth other (List.mem_cons_of_mem _ hother)) hnext (by omega)
      rw [readItems?, hitem]
      simp [hcomma, hrest]

/-- What stands behind the value of an entry. -/
def behindEntry (layout : Layout) (level : Nat) (entries : List (String × Json))
    (blanks tail : List Char) : List Char :=
  spellEntries layout level entries ++ (blanks ++ '\x7d' :: tail)

/-- The text from a key on. -/
def fromKey (layout : Layout) (level : Nat) (entry : String × Json) (behind : List Char) :
    List Char :=
  '"' :: (escaped entry.1.toList ++ '"' :: ':' ::
    (layout.colon ++ (entry.2.spell layout level ++ behind)))

theorem stops_behindEntry (entries : List (String × Json))
    (hblanks : ∀ c ∈ blanks, isSpace c = true) :
    Stops (behindEntry layout level entries blanks tail) := by
  cases entries with
  | nil =>
      rw [behindEntry, spellEntries, List.nil_append]
      exact stops_of_blank hblanks
        (stops_cons (by decide) (by decide) (by decide) (by decide))
  | cons entry rest =>
      obtain ⟨key, value⟩ := entry
      exact stops_cons (by decide) (by decide) (by decide) (by decide)

theorem skipSpaces_behindEntry_nil (hblanks : ∀ c ∈ blanks, isSpace c = true) :
    skipSpaces (behindEntry layout level [] blanks tail) = '\x7d' :: tail := by
  rw [behindEntry, spellEntries, List.nil_append, skipSpaces_of_blank hblanks,
    skipSpaces_cons (by decide)]

theorem skipSpaces_behindEntry_cons (next : String × Json) (entries : List (String × Json)) :
    skipSpaces (behindEntry layout level (next :: entries) blanks tail) =
      ',' :: (layout.gap level ++
        fromKey layout level next (behindEntry layout level entries blanks tail)) := by
  obtain ⟨key, value⟩ := next
  simp [behindEntry, fromKey, spellEntries, toList_quote, skipSpaces_cons, isSpace]

/-- A key and its value are read, and what is read next is what stands behind them. -/
theorem readEntries?_entry {entry : String × Json} {done : List (String × Draft)}
    {behind : List Char} (hread : IsRead layout entry.2) (hdepth : entry.2.depth ≤ depth)
    (hbehind : Stops behind) (htext : skipSpaces text = fromKey layout level entry behind)
    (hfuel : 2 * text.length < fuel + 1) :
    (∀ left, skipSpaces behind = ',' :: left → readEntries? (fuel + 1) depth (some done) text =
        readEntries? fuel depth (some ((entry.1, Draft.ofJson entry.2) :: done)) left) ∧
      ∀ left, skipSpaces behind = '\x7d' :: left → readEntries? (fuel + 1) depth (some done) text =
        some (.object ((entry.1, Draft.ofJson entry.2) :: done).reverse, left) := by
  have hlength := length_skipSpaces_le text
  rw [htext] at hlength
  simp only [fromKey, List.length_cons, List.length_append] at hlength
  have hquote : (escaped entry.1.toList).length < fuel + 1 := by omega
  have hkey := readString?_quote entry.1
    (':' :: (layout.colon ++ (entry.2.spell layout level ++ behind))) hquote
  have hcolon : skipSpaces (':' :: (layout.colon ++ (entry.2.spell layout level ++ behind))) =
      ':' :: (layout.colon ++ (entry.2.spell layout level ++ behind)) :=
    skipSpaces_cons (by decide) _
  have hvalue := hread level fuel depth
    (layout.colon ++ (entry.2.spell layout level ++ behind)) behind
    (by rw [skipSpaces_of_blank layout.colon_blank, skipSpaces_spell])
    (by simp only [List.length_append]; omega) hdepth hbehind
  constructor
  · intro left hleft
    conv_lhs => unfold readEntries?
    rw [htext, fromKey]
    simp [hkey, hcolon, hvalue, hleft]
  · intro left hleft
    unfold readEntries?
    rw [htext, fromKey]
    simp [hkey, hcolon, hvalue, hleft]

/-- The entries of an object are read up to its end. -/
theorem readEntries?_spell {entries : List (String × Json)} {entry : String × Json}
    {done : List (String × Draft)}
    (hentries : ∀ other ∈ entry :: entries, IsRead layout other.2)
    (hdepth : ∀ other ∈ entry :: entries, other.2.depth ≤ depth)
    (hblanks : ∀ c ∈ blanks, isSpace c = true)
    (htext : skipSpaces text =
      fromKey layout level entry (behindEntry layout level entries blanks tail))
    (hfuel : 2 * text.length < fuel) :
    readEntries? fuel depth (some done) text =
      some (.object (done.reverse ++
        (entry :: entries).map fun other => (other.1, Draft.ofJson other.2)), tail) := by
  induction entries generalizing entry text done fuel with
  | nil =>
      obtain ⟨fuel, rfl⟩ : ∃ more, fuel = more + 1 := ⟨fuel - 1, by omega⟩
      rw [(readEntries?_entry (hentries entry List.mem_cons_self)
        (hdepth entry List.mem_cons_self) (stops_behindEntry [] hblanks) htext hfuel).2 tail
        (skipSpaces_behindEntry_nil hblanks)]
      simp
  | cons next entries ih =>
      obtain ⟨fuel, rfl⟩ : ∃ more, fuel = more + 1 := ⟨fuel - 1, by omega⟩
      rw [(readEntries?_entry (hentries entry List.mem_cons_self)
        (hdepth entry List.mem_cons_self) (stops_behindEntry (next :: entries) hblanks) htext
        hfuel).1 _ (skipSpaces_behindEntry_cons next entries)]
      have hnext : skipSpaces (layout.gap level ++
          fromKey layout level next (behindEntry layout level entries blanks tail)) =
            fromKey layout level next (behindEntry layout level entries blanks tail) := by
        rw [skipSpaces_of_blank (layout.gap_blank level), fromKey, skipSpaces_cons (by decide)]
      -- a key, its marks and the comma behind it are at least two characters
      have hlength := length_skipSpaces_le text
      have hcomma := length_skipSpaces_le
        (behindEntry layout level (next :: entries) blanks tail)
      rw [skipSpaces_behindEntry_cons, List.length_cons] at hcomma
      rw [htext, fromKey] at hlength
      simp only [List.length_append, List.length_cons] at hlength
      have hrest := @ih fuel _ next ((entry.1, Draft.ofJson entry.2) :: done)
        (fun other hother => hentries other (List.mem_cons_of_mem _ hother))
        (fun other hother => hdepth other (List.mem_cons_of_mem _ hother)) hnext (by omega)
      simp [hrest]

/-! ## Values -/

theorem within_of_pos {depth : Nat} (h : 0 < depth) (draft : Draft) : draft.within depth = draft :=
  if_neg (Nat.pos_iff_ne_zero.mp h)

theorem isRead_array {items : List Json} (hitems : ∀ item ∈ items, IsRead layout item) :
    IsRead layout (array items) := by
  intro level fuel depth text rest htext hfuel hdepth hrest
  obtain ⟨fuel, rfl⟩ : ∃ more, fuel = more + 1 := ⟨fuel - 1, by omega⟩
  have hwithin : ∀ draft : Draft, draft.within depth = draft :=
    within_of_pos (Nat.lt_of_lt_of_le (Nat.succ_pos _) hdepth)
  have hlength := length_skipSpaces_le text
  cases items with
  | nil =>
      have hclose : skipSpaces (']' :: rest) = ']' :: rest := skipSpaces_cons (by decide) rest
      unfold readDraft?
      rw [htext]
      simp [spell, hclose, hwithin, Draft.ofJson, Draft.ofItems]
  | cons item items =>
      obtain ⟨c, more, hspell, hspace, hbracket, -⟩ := exists_spell_eq_cons layout (level + 1) item
      have hbody : skipSpaces (layout.gap (level + 1) ++ (item.spell layout (level + 1) ++
          (spellItems layout (level + 1) items ++ (layout.gap level ++ ']' :: rest)))) =
            item.spell layout (level + 1) ++
              (spellItems layout (level + 1) items ++ (layout.gap level ++ ']' :: rest)) := by
        rw [skipSpaces_of_blank (layout.gap_blank _), skipSpaces_spell]
      rw [htext, spell] at hlength
      simp only [List.length_append, List.length_cons, List.cons_append, List.append_assoc,
        List.nil_append] at hlength
      have hless : ∀ other ∈ item :: items, other.depth ≤ depth - 1 := by
        intro other hother
        have hlt : other.depth < (array (item :: items)).depth := depth_lt_of_mem_inner hother
        omega
      have hread : readItems? fuel (depth - 1) [] (item.spell layout (level + 1) ++
          (spellItems layout (level + 1) items ++ (layout.gap level ++ ']' :: rest))) =
            some (.array ([].reverse ++ (item :: items).map Draft.ofJson), rest) :=
        readItems?_spell hitems hless (layout.gap_blank level)
          (skipSpaces_spell layout (level + 1) item _)
          (by simp only [List.length_append, List.length_cons]; omega)
      unfold readDraft?
      rw [htext, spell]
      simp only [List.cons_append, List.append_assoc, List.nil_append]
      rw [hbody]
      rw [hspell, List.cons_append] at hread ⊢
      split
      next left hleft => exact absurd (List.cons.inj hleft).1 hbracket
      next =>
          simp [hread, hwithin, Draft.ofJson, Draft.ofItems, Draft.ofItems_eq_map]

/-- An object is read to its closing brace, whatever stands behind it. -/
theorem readDraft?_object {entries : List (String × Json)}
    (hentries : ∀ entry ∈ entries, IsRead layout entry.2)
    (htext : skipSpaces text = (object entries).spell layout level ++ rest)
    (hfuel : 2 * text.length < fuel) (hdepth : (object entries).depth ≤ depth) :
    readDraft? fuel depth text = some (Draft.ofJson (object entries), rest) := by
  obtain ⟨fuel, rfl⟩ : ∃ more, fuel = more + 1 := ⟨fuel - 1, by omega⟩
  have hwithin : ∀ draft : Draft, draft.within depth = draft :=
    within_of_pos (Nat.lt_of_lt_of_le (Nat.succ_pos _) hdepth)
  have hlength := length_skipSpaces_le text
  cases entries with
  | nil =>
      have hclose : skipSpaces ('\x7d' :: rest) = '\x7d' :: rest :=
        skipSpaces_cons (by decide) rest
      unfold readDraft?
      rw [htext]
      simp [spell, hclose, hwithin, Draft.ofJson, Draft.ofEntries]
  | cons entry entries =>
      have hspell : (object (entry :: entries)).spell layout level ++ rest =
          '\x7b' :: (layout.gap (level + 1) ++ fromKey layout (level + 1) entry
            (behindEntry layout (level + 1) entries (layout.gap level) rest)) := by
        obtain ⟨key, value⟩ := entry
        simp [spell, fromKey, behindEntry, toList_quote]
      have hbody : skipSpaces (fromKey layout (level + 1) entry
          (behindEntry layout (level + 1) entries (layout.gap level) rest)) =
            fromKey layout (level + 1) entry
              (behindEntry layout (level + 1) entries (layout.gap level) rest) :=
        skipSpaces_cons (by decide) _
      rw [htext, hspell, List.length_cons, List.length_append] at hlength
      have hless : ∀ other ∈ entry :: entries, other.2.depth ≤ depth - 1 := by
        intro other hother
        have hlt : other.2.depth < (object (entry :: entries)).depth :=
          depth_lt_of_mem_inner (List.mem_map_of_mem hother)
        omega
      have hread : readEntries? fuel (depth - 1) (some []) (fromKey layout (level + 1) entry
          (behindEntry layout (level + 1) entries (layout.gap level) rest)) =
            some (.object ([].reverse ++ (entry :: entries).map fun other =>
              (other.1, Draft.ofJson other.2)), rest) :=
        readEntries?_spell hentries hless (layout.gap_blank level) hbody (by omega)
      unfold readDraft?
      rw [htext, hspell]
      simp only
      rw [skipSpaces_of_blank (layout.gap_blank _), hbody]
      rw [fromKey] at hread ⊢
      simp [hread, hwithin, Draft.ofJson, Draft.ofEntries, Draft.ofEntries_eq_map]

theorem isRead_object {entries : List (String × Json)}
    (hentries : ∀ entry ∈ entries, IsRead layout entry.2) : IsRead layout (object entries) :=
  fun _ _ _ _ _ htext hfuel hdepth _ => readDraft?_object hentries htext hfuel hdepth

theorem afterWord?_append (word : String) (rest : List Char) :
    afterWord? word (word.toList ++ rest) = some rest := by
  rw [afterWord?, if_pos (List.isPrefixOf_iff_prefix.mpr (List.prefix_append _ _)),
    ← String.length_toList, List.drop_left]

/-- Blanks before a value do not matter. -/
theorem readDraft?_skipSpaces (fuel depth : Nat) (text : List Char) :
    readDraft? fuel depth text = readDraft? fuel depth (skipSpaces text) := by
  have hagain : skipSpaces (skipSpaces text) = skipSpaces text :=
    List.dropWhile_idempotent isSpace text
  unfold readDraft?
  rw [hagain]

/-- What is written in either form is read as the draft of the value. -/
theorem isRead (layout : Layout) {value : Json} (hnumbers : value.NumbersReadBack) :
    IsRead layout value := by
  induction value using inner_induction with
  | step value ih =>
      cases value with
      | array items => exact isRead_array fun item hitem => ih item hitem (hnumbers.inner hitem)
      | object entries =>
          refine isRead_object fun entry hentry => ?_
          have hmem : entry.2 ∈ (object entries).inner := List.mem_map_of_mem hentry
          exact ih entry.2 hmem (hnumbers.inner hmem)
      | number n =>
          intro level fuel depth text rest htext hfuel hdepth hrest
          obtain ⟨fuel, rfl⟩ : ∃ more, fuel = more + 1 := ⟨fuel - 1, by omega⟩
          rw [readDraft?_skipSpaces, htext]
          exact readDraft?_number (hnumbers n (.self _)) hrest
      | string content =>
          intro level fuel depth text rest htext hfuel hdepth hrest
          obtain ⟨fuel, rfl⟩ : ∃ more, fuel = more + 1 := ⟨fuel - 1, by omega⟩
          have hspell : (string content).spell layout level ++ rest =
              '"' :: (escaped content.toList ++ '"' :: rest) := by
            simp [spell, renderScalar, toList_quote]
          have hlength := length_skipSpaces_le text
          rw [htext, hspell, List.length_cons, List.length_append] at hlength
          have hread : readString? (fuel + 1) (some []) (escaped content.toList ++ '"' :: rest) =
              some (some content, rest) := readString?_quote content rest (by omega)
          unfold readDraft?
          rw [htext, hspell]
          simp [hread, Draft.ofJson]
      | null =>
          intro level fuel depth text rest htext hfuel hdepth hrest
          obtain ⟨fuel, rfl⟩ : ∃ more, fuel = more + 1 := ⟨fuel - 1, by omega⟩
          have hword := afterWord?_append "ull" rest
          unfold readDraft?
          rw [htext]
          simpa [spell, renderScalar, Draft.ofJson] using hword
      | bool value =>
          intro level fuel depth text rest htext hfuel hdepth hrest
          obtain ⟨fuel, rfl⟩ : ∃ more, fuel = more + 1 := ⟨fuel - 1, by omega⟩
          have htrue := afterWord?_append "rue" rest
          have hfalse := afterWord?_append "alse" rest
          unfold readDraft?
          rw [htext]
          cases value with
          | true => simpa [spell, renderScalar, Draft.ofJson] using htrue
          | false => simpa [spell, renderScalar, Draft.ofJson] using hfalse

/-- Blanks before a document do not matter. -/
theorem read?_of_skipSpaces {value : Json} {text : String}
    (htext : skipSpaces text.toList = value.spell layout level) (hnumbers : value.NumbersReadBack)
    (hdepth : value.depth ≤ documentDepth) : Draft.read? text = some (Draft.ofJson value) := by
  have hread := isRead layout hnumbers level (2 * text.toList.length + 2) documentDepth text.toList
    [] (by rw [htext, List.append_nil]) (by omega) hdepth stops_nil
  unfold Draft.read? Draft.readWithin?
  simp only [hread]
  rfl

theorem read?_of_spell {value : Json} {text : String}
    (htext : text.toList = value.spell layout level) (hnumbers : value.NumbersReadBack)
    (hdepth : value.depth ≤ documentDepth) : Draft.read? text = some (Draft.ofJson value) := by
  have hstart := skipSpaces_spell layout level value []
  rw [List.append_nil, ← htext] at hstart
  exact read?_of_skipSpaces (hstart.trans htext) hnumbers hdepth

/-- The compact form of a value spells it. -/
theorem read?_render {value : Json} (hnumbers : value.NumbersReadBack)
    (hdepth : value.depth ≤ documentDepth) :
    Draft.read? value.render = some (Draft.ofJson value) :=
  read?_of_spell (toList_render value) hnumbers hdepth

/-- The indented form of a value spells it. -/
theorem read?_renderIndented {value : Json} (hnumbers : value.NumbersReadBack)
    (hdepth : value.depth ≤ documentDepth) :
    Draft.read? value.renderIndented = some (Draft.ofJson value) :=
  read?_of_spell (toList_renderIndented value) hnumbers hdepth

/-- Reading a written value gives the value back. -/
theorem parse?_render {value : Json} (hkeys : value.HasDistinctKeys)
    (hnumbers : value.NumbersReadBack) (hdepth : value.depth ≤ documentDepth) :
    parse? value.render = some value := by
  rw [parse?, read?_render hnumbers hdepth, Option.bind_some, Draft.toJson?_ofJson hkeys]

end Json
end LiveSchema
