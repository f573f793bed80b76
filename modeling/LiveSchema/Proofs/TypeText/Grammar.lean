import LiveSchema.Proofs.TypeText.Tokens

/-!
# The grammar of type references

A type reference is an identifier, optionally followed by a list in angle brackets of one or more
arguments with commas between them, each a type reference or a numeral.  Between these pieces, and at
both ends, blanks may stand.  The grammar is given on characters, and with each text goes the tree that
it spells, whose places are counted in bytes.  The reader accepts the grammar and nothing else.
-/

namespace LiveSchema
namespace TypeText

/-! ## Texts and the trees they spell -/

mutual

/-- The text, whose first byte is the byte `start`, is a type reference and spells the tree. -/
inductive SpellsType : Nat → List Char → Tree → Prop
  | name {start name} (hname : IsWord name) : SpellsType start name ⟨start, name, []⟩
  | applied {start name gap text arguments} (hname : IsWord name) (hgap : IsBlank gap)
      (harguments : SpellsArguments (start + width name + width gap + 1) text arguments) :
      SpellsType start (name ++ (gap ++ '<' :: text)) ⟨start, name, arguments⟩

/-- The text is one argument. -/
inductive SpellsArgument : Nat → List Char → TreeArgument → Prop
  | size {start digits} (hdigits : IsNumeral digits) :
      SpellsArgument start digits (.size start digits)
  | type {start text tree} (htree : SpellsType start text tree) :
      SpellsArgument start text (.type tree)

/-- The text is the arguments up to and with the closing bracket. -/
inductive SpellsArguments : Nat → List Char → List TreeArgument → Prop
  | last {start before text after argument} (hbefore : IsBlank before) (hafter : IsBlank after)
      (hargument : SpellsArgument (start + width before) text argument) :
      SpellsArguments start (before ++ (text ++ (after ++ ['>']))) [argument]
  | more {start before text after further argument arguments} (hbefore : IsBlank before)
      (hafter : IsBlank after) (hargument : SpellsArgument (start + width before) text argument)
      (hfurther : SpellsArguments (start + width before + width text + width after + 1) further
        arguments) :
      SpellsArguments start (before ++ (text ++ (after ++ ',' :: further)))
        (argument :: arguments)

end

/-- The text is a type reference between blanks. -/
def Spells (text : List Char) (tree : Tree) : Prop :=
  ∃ before inside after, text = before ++ (inside ++ after) ∧ IsBlank before ∧ IsBlank after ∧
    SpellsType (width before) inside tree

variable {start length : Nat} {miss : Miss} {text rest : List Char} {tree : Tree}
  {argument : TreeArgument} {done arguments : List TreeArgument} {placed : List Placed}

/-! ## What stands behind a type reference -/

/-- A text behind which an identifier is complete and has no arguments. -/
structure Closes (rest : List Char) : Prop where
  breaks : Breaks rest
  unopened : ∀ offset bracket behind, (scanFrom offset rest).1 ≠ ⟨.opening, bracket⟩ :: behind

theorem breaks_of_gap {gap : List Char} (hgap : IsBlank gap) (h : Breaks rest) :
    Breaks (gap ++ rest) := by
  cases gap with
  | nil => exact h
  | cons c gap => exact breaks_cons (not_continues_of_isGap (hgap c List.mem_cons_self)) _

theorem Closes.behind {gap : List Char} (hgap : IsBlank gap) (h : Closes rest) :
    Closes (gap ++ rest) where
  breaks := breaks_of_gap hgap h.breaks
  unopened offset bracket behind := by
    rw [scanFrom_gap hgap]
    exact h.unopened _ bracket behind

theorem closes_nil : Closes [] where
  breaks := by simp [Breaks]
  unopened := by simp [scanFrom_nil]

theorem closes_comma (rest : List Char) : Closes (',' :: rest) where
  breaks := breaks_cons (by decide) rest
  unopened := by simp [scanFrom_comma]

theorem closes_closing (rest : List Char) : Closes ('>' :: rest) where
  breaks := breaks_cons (by decide) rest
  unopened := by simp [scanFrom_closing]

theorem closes_of_isBlank {gap : List Char} (hgap : IsBlank gap) : Closes gap := by
  simpa using closes_nil.behind hgap

/-! ## The grammar is accepted -/

/-- Reading takes the text of a tree off the tokens. -/
def ReadsTree (start : Nat) (text : List Char) (tree : Tree) : Prop :=
  ∀ length miss rest placed, Closes rest → placed = (scanFrom start (text ++ rest)).1 →
    ∃ found : Found Tree placed, readTree length miss placed = .ok found ∧ found.value = tree ∧
      found.rest = (scanFrom (start + width text) rest).1

/-- Reading puts an argument to those before it.  After a bracket they are complete, and after a comma
it goes on. -/
def ReadsArgument (start : Nat) (text : List Char) (argument : TreeArgument) : Prop :=
  ∀ length miss done rest placed offset behind, Closes rest →
    placed = (scanFrom start (text ++ rest)).1 →
    ((scanFrom (start + width text) rest).1 = ⟨.closing, offset⟩ :: behind →
      ∃ found : Found (List TreeArgument) placed,
        readArguments length miss done placed = .ok found ∧
          found.value = (argument :: done).reverse ∧ found.rest = behind) ∧
    ((scanFrom (start + width text) rest).1 = ⟨.comma, offset⟩ :: behind →
      ∃ sofar, ∀ further : Found (List TreeArgument) behind,
        readArguments length sofar (argument :: done) behind = .ok further →
          ∃ found : Found (List TreeArgument) placed,
            readArguments length miss done placed = .ok found ∧
              found.value = further.value ∧ found.rest = further.rest)

/-- Reading takes the text of arguments off the tokens. -/
def ReadsArguments (start : Nat) (text : List Char) (arguments : List TreeArgument) : Prop :=
  ∀ length miss done rest placed, placed = (scanFrom start (text ++ rest)).1 →
    ∃ found : Found (List TreeArgument) placed,
      readArguments length miss done placed = .ok found ∧
        found.value = done.reverse ++ arguments ∧
          found.rest = (scanFrom (start + width text) rest).1

theorem readsTree_name {name : List Char} (hname : IsWord name) :
    ReadsTree start name ⟨start, name, []⟩ := by
  rintro length miss rest placed hrest rfl
  rw [scanFrom_word hname hrest.breaks]
  exact ⟨_, readTree.eq_2 _ _ _ _ _ (hrest.unopened _), rfl, rfl⟩

theorem readsTree_applied {name gap : List Char} (hname : IsWord name) (hgap : IsBlank gap)
    (h : ReadsArguments (start + width name + width gap + 1) text arguments) :
    ReadsTree start (name ++ (gap ++ '<' :: text)) ⟨start, name, arguments⟩ := by
  intro length miss rest placed hrest hplaced
  have hopening : Breaks (gap ++ '<' :: (text ++ rest)) :=
    breaks_of_gap hgap (breaks_cons (by decide) _)
  have htokens : placed = ⟨.identifier name, start⟩ :: ⟨.opening, start + width name + width gap⟩ ::
      (scanFrom (start + width name + width gap + 1) (text ++ rest)).1 := by
    rw [hplaced, List.append_assoc, List.append_assoc, List.cons_append,
      scanFrom_word hname hopening, scanFrom_gap hgap, scanFrom_opening]
  subst htokens
  obtain ⟨found, hread, hvalue, hbehind⟩ := h length miss [] rest _ rfl
  rw [readTree, hread]
  refine ⟨_, rfl, by simp [hvalue], hbehind.trans ?_⟩
  have hone : '<'.utf8Size = 1 := rfl
  simp only [width_append, width_cons, hone, Nat.add_assoc]

theorem readsArgument_size {digits : List Char} (hdigits : IsNumeral digits) :
    ReadsArgument start digits (.size start digits) := by
  rintro length miss done rest placed offset behind hrest rfl
  rw [scanFrom_numeral hdigits hrest.breaks]
  refine ⟨fun hbehind => ?_, fun hbehind => ?_⟩
  · rw [hbehind]
    exact ⟨_, readArguments.eq_3 .., rfl, rfl⟩
  · rw [hbehind]
    refine ⟨miss.add start .identifier, fun further hfurther => ?_⟩
    rw [readArguments, hfurther]
    exact ⟨_, rfl, rfl, rfl⟩

theorem SpellsType.exists_identifier (h : SpellsType start text tree) (hrest : Breaks rest) :
    ∃ name behind, (scanFrom start (text ++ rest)).1 = ⟨.identifier name, start⟩ :: behind := by
  cases h with
  | name hname => exact ⟨_, _, scanFrom_word hname hrest start⟩
  | applied hname hgap harguments =>
      rw [List.append_assoc, List.append_assoc]
      exact ⟨_, _, scanFrom_word hname (breaks_of_gap hgap (breaks_cons (by decide) _)) start⟩

theorem readsArgument_type (htree : SpellsType start text tree) (h : ReadsTree start text tree) :
    ReadsArgument start text (.type tree) := by
  intro length miss done rest placed offset behind hrest hplaced
  obtain ⟨name, following, hfirst⟩ := htree.exists_identifier hrest.breaks
  obtain ⟨⟨value, sofar, left, shorter⟩, hread, rfl, hleft⟩ := h length miss rest placed hrest hplaced
  rw [hfirst] at hplaced
  subst hplaced
  refine ⟨fun hbehind => ?_, fun hbehind => ?_⟩
  · obtain rfl := hleft.trans hbehind
    rw [readArguments, hread]
    exact ⟨_, rfl, rfl, rfl⟩
  · obtain rfl := hleft.trans hbehind
    refine ⟨sofar, fun further hfurther => ?_⟩
    have hless : further.rest.length < (⟨.identifier name, start⟩ :: following).length := by
      have := further.shorter
      simp only [List.length_cons] at shorter ⊢
      omega
    refine ⟨⟨further.value, further.miss, further.rest, hless⟩, ?_, rfl, rfl⟩
    rw [readArguments, hread]
    dsimp only [bind, Except.bind]
    rw [hfurther]
    rfl

theorem readsArguments_last {before after : List Char} (hbefore : IsBlank before)
    (hafter : IsBlank after) (h : ReadsArgument (start + width before) text argument) :
    ReadsArguments start (before ++ (text ++ (after ++ ['>']))) [argument] := by
  intro length miss done rest placed hplaced
  have htokens : placed =
      (scanFrom (start + width before) (text ++ (after ++ '>' :: rest))).1 := by
    rw [hplaced]
    simp only [List.append_assoc, List.cons_append, List.nil_append, scanFrom_gap hbefore]
  have hclosing := (closes_closing rest).behind hafter
  obtain ⟨found, hread, hvalue, hbehind⟩ :=
    (h length miss done _ placed _ _ hclosing htokens).1
      (by rw [scanFrom_gap hafter, scanFrom_closing])
  refine ⟨found, hread, by simp [hvalue], hbehind.trans ?_⟩
  have hone : '>'.utf8Size = 1 := rfl
  simp only [width_append, width_cons, width_nil, hone, Nat.add_zero, Nat.add_assoc]

theorem readsArguments_more {before after further : List Char} (hbefore : IsBlank before)
    (hafter : IsBlank after) (h : ReadsArgument (start + width before) text argument)
    (hfurther : ReadsArguments (start + width before + width text + width after + 1) further
      arguments) :
    ReadsArguments start (before ++ (text ++ (after ++ ',' :: further))) (argument :: arguments) := by
  intro length miss done rest placed hplaced
  have htokens : placed =
      (scanFrom (start + width before) (text ++ (after ++ ',' :: (further ++ rest)))).1 := by
    rw [hplaced]
    simp only [List.append_assoc, List.cons_append, scanFrom_gap hbefore]
  have hcomma := (closes_comma (further ++ rest)).behind hafter
  obtain ⟨sofar, hstep⟩ := (h length miss done _ placed _ _ hcomma htokens).2
    (by rw [scanFrom_gap hafter, scanFrom_comma])
  obtain ⟨others, hothers, hvalues, hbehind⟩ :=
    hfurther length sofar (argument :: done) rest _ rfl
  obtain ⟨found, hread, hvalue, hrest⟩ := hstep others hothers
  refine ⟨found, hread, by simp [hvalue, hvalues], hrest.trans (hbehind.trans ?_)⟩
  have hone : ','.utf8Size = 1 := rfl
  simp only [width_append, width_cons, hone, Nat.add_assoc]

mutual

theorem SpellsType.reads {start : Nat} {text : List Char} {tree : Tree} :
    SpellsType start text tree → ReadsTree start text tree
  | .name hname => readsTree_name hname
  | .applied hname hgap harguments => readsTree_applied hname hgap harguments.reads

theorem SpellsArgument.reads {start : Nat} {text : List Char} {argument : TreeArgument} :
    SpellsArgument start text argument → ReadsArgument start text argument
  | .size hdigits => readsArgument_size hdigits
  | .type htree => readsArgument_type htree htree.reads

theorem SpellsArguments.reads {start : Nat} {text : List Char} {arguments : List TreeArgument} :
    SpellsArguments start text arguments → ReadsArguments start text arguments
  | .last hbefore hafter hargument => readsArguments_last hbefore hafter hargument.reads
  | .more hbefore hafter hargument hfurther =>
    readsArguments_more hbefore hafter hargument.reads hfurther.reads

end

/-! ## Nothing else is accepted -/

/-- A type reference begins with its name; what it holds more is behind an opening bracket. -/
theorem readTree_ok {found : Found Tree placed} (h : readTree length miss placed = .ok found) :
    ∃ name offset behind, placed = ⟨.identifier name, offset⟩ :: behind ∧
      ((found.value = ⟨offset, name, []⟩ ∧ found.rest = behind) ∨
        ∃ bracket inside, behind = ⟨.opening, bracket⟩ :: inside ∧
          ∃ arguments : Found (List TreeArgument) inside,
            readArguments length miss [] inside = .ok arguments ∧
              found.value = ⟨offset, name, arguments.value⟩ ∧ found.rest = arguments.rest) := by
  rw [readTree.eq_def] at h
  split at h
  next name offset bracket inside =>
    cases harguments : readArguments length miss [] inside with
    | error fault =>
        rw [harguments] at h
        cases h
    | ok arguments =>
        rw [harguments] at h
        cases h
        exact ⟨name, offset, _, rfl, .inr ⟨bracket, inside, rfl, arguments, harguments, rfl, rfl⟩⟩
  next name offset behind hunopened =>
    cases h
    exact ⟨name, offset, behind, rfl, .inl ⟨rfl, rfl⟩⟩
  next => cases h

/-- Reading the tokens `placed` finds an argument in front of the tokens `left`. -/
inductive TakesArgument (length : Nat) (placed : List Placed) :
    TreeArgument → List Placed → Prop
  | size {digits offset left} (hplaced : placed = ⟨.digits digits, offset⟩ :: left) :
      TakesArgument length placed (.size offset digits) left
  | type {sofar : Miss} {tree : Found Tree placed}
      (hread : readTree length sofar placed = .ok tree) :
      TakesArgument length placed (.type tree.value) tree.rest

theorem TakesArgument.shorter {left : List Placed} (h : TakesArgument length placed argument left) :
    left.length < placed.length := by
  cases h with
  | size hplaced => simp [hplaced]
  | type hread => exact Found.shorter _

/-- Arguments begin with one argument, and either a bracket ends them or a comma goes before
further ones. -/
theorem readArguments_ok {found : Found (List TreeArgument) placed}
    (h : readArguments length miss done placed = .ok found) :
    ∃ argument offset behind mark, TakesArgument length placed argument (⟨mark, offset⟩ :: behind) ∧
      (mark = Token.closing ∧ found.value = (argument :: done).reverse ∧ found.rest = behind ∨
        mark = Token.comma ∧ ∃ sofar, ∃ further : Found (List TreeArgument) behind,
          readArguments length sofar (argument :: done) behind = .ok further ∧
            found.value = further.value ∧ found.rest = further.rest) := by
  rw [readArguments.eq_def] at h
  split at h
  next name offset following =>
    cases htree : readTree length miss (⟨.identifier name, offset⟩ :: following) with
    | error fault =>
        rw [htree] at h
        cases h
    | ok tree =>
        rw [htree] at h
        have hargument := TakesArgument.type htree
        dsimp only [bind, Except.bind] at h
        split at h
        next comma behind hrest =>
          rw [hrest] at hargument
          split at h
          next => cases h
          next further hfurther =>
            cases h
            exact ⟨_, comma, behind, _, hargument, .inr ⟨rfl, _, further, hfurther, rfl, rfl⟩⟩
        next bracket behind hrest =>
          rw [hrest] at hargument
          cases h
          exact ⟨_, bracket, behind, _, hargument, .inl ⟨rfl, rfl, rfl⟩⟩
        next => cases h
  next digits offset following =>
    dsimp only [bind, Except.bind] at h
    split at h
    next comma behind =>
      split at h
      next => cases h
      next further hfurther =>
        cases h
        exact ⟨_, comma, behind, _, .size rfl, .inr ⟨rfl, _, further, hfurther, rfl, rfl⟩⟩
    next bracket behind =>
      cases h
      exact ⟨_, bracket, behind, _, .size rfl, .inl ⟨rfl, rfl, rfl⟩⟩
    next => cases h
  next => cases h

/-- A text at the byte `offset` begins, behind blanks, with a part of some kind, and the tokens `left`
are those behind this part. -/
def BeginsWith (kind : Nat → List Char → Prop) (offset : Nat) (text : List Char)
    (left : List Placed) : Prop :=
  ∃ gap inside rest, text = gap ++ (inside ++ rest) ∧ IsBlank gap ∧ kind (offset + width gap) inside ∧
    left = (scanFrom (offset + width gap + width inside) rest).1

/-- A bracket or a comma behind blanks. -/
theorem exists_mark {offset place : Nat} {mark : Token} {behind : List Placed} {c : Char}
    (h : (scanFrom offset text).1 = ⟨mark, place⟩ :: behind) (hmark : mark.spelling = [c])
    (hc : c.utf8Size = 1) :
    ∃ gap rest, text = gap ++ c :: rest ∧ IsBlank gap ∧ place = offset + width gap ∧
      behind = (scanFrom (offset + width gap + 1) rest).1 := by
  obtain ⟨gap, rest, rfl, hgap, hplace, -, hbehind⟩ := exists_split_of_scanFrom h
  refine ⟨gap, rest, by simp [hmark], hgap, hplace, ?_⟩
  rw [hbehind, hplace, hmark, width_cons, width_nil, hc]

mutual

theorem beginsWith_of_readTree {length offset : Nat} {miss : Miss} {text : List Char}
    {placed : List Placed} {found : Found Tree placed} (h : readTree length miss placed = .ok found)
    (hplaced : (scanFrom offset text).1 = placed) :
    BeginsWith (SpellsType · · found.value) offset text found.rest := by
  obtain ⟨name, place, behind, hname, hrest⟩ := readTree_ok h
  obtain ⟨gap, rest, rfl, hgap, rfl, hword, hbehind⟩ :=
    exists_split_of_scanFrom (hplaced.trans hname)
  obtain ⟨hvalue, hleft⟩ | ⟨bracket, inside, hopening, arguments, harguments, hvalue, hleft⟩ := hrest
  · exact ⟨gap, name, rest, rfl, hgap, hvalue ▸ .name hword, hleft.trans hbehind⟩
  · obtain ⟨blank, further, rfl, hblank, -, hinside⟩ :=
      exists_mark (hbehind.symm.trans hopening) rfl rfl
    have hshorter : inside.length < placed.length := by
      rw [hname, hopening]
      simp only [List.length_cons]
      omega
    obtain ⟨list, rest, trees, rfl, hlist, htrees, hrest⟩ :=
      beginsWith_of_readArguments harguments hinside.symm
    have hspells := SpellsType.applied hword hblank hlist
    refine ⟨gap, name ++ (blank ++ '<' :: list), rest, by simp [Token.spelling], hgap, ?_, ?_⟩
    · rw [hvalue, htrees]
      exact hspells
    · have hone : '<'.utf8Size = 1 := rfl
      simp only [hleft, hrest, Token.spelling, width_append, width_cons, hone, Nat.add_assoc]
termination_by (placed.length, 0)

theorem beginsWith_of_takesArgument {length offset : Nat} {text : List Char}
    {placed left : List Placed} {argument : TreeArgument}
    (h : TakesArgument length placed argument left) (hplaced : (scanFrom offset text).1 = placed) :
    BeginsWith (SpellsArgument · · argument) offset text left := by
  cases h with
  | size hdigits =>
      obtain ⟨gap, rest, rfl, hgap, rfl, hproper, hbehind⟩ :=
        exists_split_of_scanFrom (hplaced.trans hdigits)
      exact ⟨gap, _, rest, rfl, hgap, .size hproper, hbehind⟩
  | type hread =>
      obtain ⟨gap, inside, rest, htext, hgap, htree, hleft⟩ := beginsWith_of_readTree hread hplaced
      exact ⟨gap, inside, rest, htext, hgap, .type htree, hleft⟩
termination_by (placed.length, 1)

theorem beginsWith_of_readArguments {length offset : Nat} {miss : Miss} {text : List Char}
    {done : List TreeArgument} {placed : List Placed} {found : Found (List TreeArgument) placed}
    (h : readArguments length miss done placed = .ok found)
    (hplaced : (scanFrom offset text).1 = placed) :
    ∃ inside rest arguments, text = inside ++ rest ∧ SpellsArguments offset inside arguments ∧
      found.value = done.reverse ++ arguments ∧
        found.rest = (scanFrom (offset + width inside) rest).1 := by
  obtain ⟨argument, place, behind, mark, hargument, hrest⟩ := readArguments_ok h
  obtain ⟨before, inside, rest, rfl, hbefore, hspells, hleft⟩ :=
    beginsWith_of_takesArgument hargument hplaced
  obtain ⟨rfl, hvalue, hfound⟩ | ⟨rfl, sofar, further, hfurther, hvalue, hfound⟩ := hrest
  · obtain ⟨after, rest, rfl, hafter, -, hbehind⟩ := exists_mark hleft.symm rfl rfl
    refine ⟨before ++ (inside ++ (after ++ ['>'])), rest, [argument], by simp,
      .last hbefore hafter hspells, by simp [hvalue], ?_⟩
    have hone : '>'.utf8Size = 1 := rfl
    simp only [hfound, hbehind, width_append, width_cons, width_nil, hone, Nat.add_zero,
      Nat.add_assoc]
  · obtain ⟨after, rest, rfl, hafter, -, hbehind⟩ := exists_mark hleft.symm rfl rfl
    have hshorter : behind.length < placed.length :=
      Nat.lt_of_succ_lt hargument.shorter
    obtain ⟨list, rest, trees, rfl, hlist, htrees, hrest⟩ :=
      beginsWith_of_readArguments hfurther hbehind.symm
    refine ⟨before ++ (inside ++ (after ++ ',' :: list)), rest, argument :: trees, by simp,
      .more hbefore hafter hspells hlist, by simp [hvalue, htrees], ?_⟩
    have hone : ','.utf8Size = 1 := rfl
    simp only [hfound, hrest, width_append, width_cons, hone, Nat.add_assoc]
termination_by (placed.length, 2)

end

/-! ## Whole texts -/

/-- A text is read as a tree just if it is a type reference that spells the tree. -/
theorem readText_eq_ok_iff {text : String} :
    readText text = .ok tree ↔ Spells text.toList tree := by
  rw [readText, scan]
  dsimp only [bind, Except.bind]
  constructor
  · intro h
    split at h
    next => cases h
    next found hread =>
      obtain ⟨before, inside, after, htext, hbefore, hspells, hrest⟩ :=
        beginsWith_of_readTree hread rfl
      split at h
      next hend =>
        cases h
        rw [Nat.zero_add] at hspells
        exact ⟨before, inside, after, htext, hbefore, isBlank_of_scanFrom_eq_nil (hrest ▸ hend),
          hspells⟩
      next => cases h
  · rintro ⟨before, inside, after, htext, hbefore, hafter, hspells⟩
    have hinside : (scanFrom 0 text.toList).1 =
        (scanFrom (width before) (inside ++ after)).1 := by
      rw [htext, scanFrom_gap hbefore, Nat.zero_add]
    obtain ⟨found, hread, hvalue, hrest⟩ :=
      hspells.reads (scanFrom 0 text.toList).2 ⟨0, []⟩ after _ (closes_of_isBlank hafter) hinside
    have hend : found.rest = [] := by
      rw [hrest, ← List.append_nil after, scanFrom_gap hafter, scanFrom_nil]
    rw [hread]
    dsimp only
    rw [hend, hvalue]
    rfl

end TypeText
end LiveSchema
