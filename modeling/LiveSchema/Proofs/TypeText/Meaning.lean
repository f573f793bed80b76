import LiveSchema.Proofs.TypeText.Grammar

/-!
# The meaning of spelled type references

In a registry a tree of names denotes at most one type reference.  Whether it does is a matter of its
words, the identifiers and the numerals, one by one.  Looking up goes through the words in their order
and complains about the first that cannot be understood.
-/

namespace LiveSchema
namespace TypeText

/-! ## Denotations -/

mutual

/-- The type reference that a tree stands for. -/
inductive Denotes (registry : Registry) : Tree → TypeReference → Prop
  | intro {offset name handle trees arguments}
      (hname : registry.resolve? (String.ofList name) = some handle)
      (harguments : DenotesAll registry trees arguments) :
      Denotes registry ⟨offset, name, trees⟩ ⟨handle, arguments⟩

/-- The arguments that trees stand for, one by one. -/
inductive DenotesAll (registry : Registry) : List TreeArgument → List TemplateArgument → Prop
  | nil : DenotesAll registry [] []
  | size {offset digits count trees arguments} (hcount : count.toNat = Text.ofDigits digits)
      (hrest : DenotesAll registry trees arguments) :
      DenotesAll registry (.size offset digits :: trees) (.size count :: arguments)
  | type {tree reference trees arguments} (htree : Denotes registry tree reference)
      (hrest : DenotesAll registry trees arguments) :
      DenotesAll registry (.type tree :: trees) (.type reference :: arguments)

end

theorem resolveArguments_size {registry : Registry} {offset : Nat} {digits : List Char}
    {count : UInt64} {trees : List TreeArgument} {arguments : List TemplateArgument}
    (hcount : count.toNat = Text.ofDigits digits)
    (h : Tree.resolveArguments registry trees = .ok arguments) :
    Tree.resolveArguments registry (.size offset digits :: trees) =
      .ok (.size count :: arguments) := by
  rw [Tree.resolveArguments, h, ← hcount, if_pos count.toNat_lt, UInt64.ofNat_toNat]
  rfl

mutual

/-- Looking up finds what a tree stands for. -/
theorem Denotes.resolve_eq {registry : Registry} {tree : Tree} {reference : TypeReference} :
    Denotes registry tree reference → tree.resolve registry = .ok reference
  | .intro hname harguments => by
    rw [Tree.resolve, hname, harguments.resolve_eq]
    rfl

theorem DenotesAll.resolve_eq {registry : Registry} {trees : List TreeArgument}
    {arguments : List TemplateArgument} :
    DenotesAll registry trees arguments → Tree.resolveArguments registry trees = .ok arguments
  | .nil => by
    rw [Tree.resolveArguments]
    rfl
  | .size hcount hrest => resolveArguments_size hcount hrest.resolve_eq
  | .type htree hrest => by
    rw [Tree.resolveArguments, htree.resolve_eq, hrest.resolve_eq]
    rfl

end

/-! ## Words -/

mutual

/-- The identifiers and the numerals of a tree, from left to right. -/
def Tree.words : Tree → List Placed
  | ⟨offset, name, arguments⟩ => ⟨.identifier name, offset⟩ :: Tree.argumentWords arguments

/-- The words of arguments. -/
def Tree.argumentWords : List TreeArgument → List Placed
  | [] => []
  | .size offset digits :: rest => ⟨.digits digits, offset⟩ :: Tree.argumentWords rest
  | .type tree :: rest => tree.words ++ Tree.argumentWords rest

end

/-- Why a word cannot be understood: an identifier has to name a type of the registry, and a number has
to fit 64 bits. -/
def Placed.complaint? (registry : Registry) : Placed → Option ParseError
  | ⟨.identifier name, offset⟩ =>
    if registry.resolve? (String.ofList name) = none then
      some ⟨offset, .unknownType (String.ofList name)⟩
    else none
  | ⟨.digits digits, offset⟩ =>
    if Text.ofDigits digits < 2 ^ 64 then none else some ⟨offset, .sizeTooLarge (String.ofList digits)⟩
  | _ => none

/-- A complaint is about the place of its word. -/
theorem Placed.offset_of_complaint? {registry : Registry} {word : Placed} {error : ParseError}
    (h : word.complaint? registry = some error) : error.offset = word.offset := by
  unfold complaint? at h
  split at h
  · split at h
    · exact (congrArg ParseError.offset (Option.some.inj h)).symm
    · cases h
  · split at h
    · cases h
    · exact (congrArg ParseError.offset (Option.some.inj h)).symm
  · cases h

/-- What comes of looking up some words: all are understood and there is a denotation, or the first
complaint is the answer. -/
def IsAnswer {α : Type} (registry : Registry) (words : List Placed) (denotes : α → Prop) :
    Except ParseError α → Prop
  | .ok value => words.findSome? (Placed.complaint? registry) = none ∧ denotes value
  | .error error => words.findSome? (Placed.complaint? registry) = some error

namespace IsAnswer

variable {α β : Type} {registry : Registry} {word : Placed} {words before behind : List Placed}
  {denotes : α → Prop} {stands : β → Prop} {outcome : Except ParseError α}

theorem ok_iff {value : α} : IsAnswer registry words denotes (.ok value) ↔
    words.findSome? (Placed.complaint? registry) = none ∧ denotes value :=
  Iff.rfl

theorem error_iff {error : ParseError} : IsAnswer registry words denotes (.error error) ↔
    words.findSome? (Placed.complaint? registry) = some error :=
  Iff.rfl

theorem skip (hword : word.complaint? registry = none) (h : IsAnswer registry words denotes outcome) :
    IsAnswer registry (word :: words) denotes outcome := by
  cases outcome with
  | ok value => rwa [ok_iff, List.findSome?_cons, hword]
  | error error => rwa [error_iff, List.findSome?_cons, hword]

theorem stop {error : ParseError} (hword : word.complaint? registry = some error) :
    IsAnswer registry (word :: words) denotes (.error error) := by
  rw [error_iff, List.findSome?_cons, hword]

/-- Looking up some words, and then the words behind them. -/
theorem bind {next : α → Except ParseError β} (h : IsAnswer registry before denotes outcome)
    (hnext : ∀ value, denotes value → IsAnswer registry behind stands (next value)) :
    IsAnswer registry (before ++ behind) stands (outcome >>= next) := by
  cases outcome with
  | error error =>
      rw [error_iff] at h
      exact error_iff.mpr (by rw [List.findSome?_append, h]; rfl)
  | ok value =>
      obtain ⟨hnone, hvalue⟩ := ok_iff.mp h
      have hbehind := hnext value hvalue
      show IsAnswer registry (before ++ behind) stands (next value)
      cases houtcome : next value with
      | error error =>
          rw [houtcome] at hbehind
          rwa [error_iff, List.findSome?_append, hnone]
      | ok found =>
          rw [houtcome] at hbehind
          rwa [ok_iff, List.findSome?_append, hnone]

theorem map {f : α → β} (h : IsAnswer registry words denotes outcome)
    (hf : ∀ value, denotes value → stands (f value)) :
    IsAnswer registry words stands (outcome >>= fun value => pure (f value)) := by
  rw [← List.append_nil words]
  exact h.bind fun value hvalue => ⟨rfl, hf value hvalue⟩

end IsAnswer

mutual

theorem Tree.isAnswer_resolve (registry : Registry) :
    (tree : Tree) → IsAnswer registry tree.words (Denotes registry tree) (tree.resolve registry)
  | ⟨offset, name, arguments⟩ => by
    have harguments := Tree.isAnswer_resolveArguments registry arguments
    rw [Tree.words, Tree.resolve]
    cases hname : registry.resolve? (String.ofList name) with
    | none => exact .stop (by simp [Placed.complaint?, hname])
    | some handle =>
        exact .skip (by simp [Placed.complaint?, hname])
          (harguments.map fun _ hdenotes => .intro hname hdenotes)

theorem Tree.isAnswer_resolveArguments (registry : Registry) :
    (arguments : List TreeArgument) →
      IsAnswer registry (Tree.argumentWords arguments) (DenotesAll registry arguments)
        (Tree.resolveArguments registry arguments)
  | [] => by
    rw [Tree.argumentWords, Tree.resolveArguments]
    exact ⟨rfl, .nil⟩
  | .size offset digits :: rest => by
    have hrest := Tree.isAnswer_resolveArguments registry rest
    rw [Tree.argumentWords, Tree.resolveArguments]
    split
    next hfits =>
      exact .skip (if_pos hfits)
        (hrest.map fun _ hdenotes => .size (UInt64.toNat_ofNat_of_lt' hfits) hdenotes)
    next hfits => exact .stop (if_neg hfits)
  | .type tree :: rest => by
    have htree := tree.isAnswer_resolve registry
    have hrest := Tree.isAnswer_resolveArguments registry rest
    rw [Tree.argumentWords, Tree.resolveArguments]
    exact htree.bind fun _ hreference => hrest.map fun _ hdenotes => .type hreference hdenotes

end

/-! ## Reading texts -/

variable {registry : Registry} {tree : Tree} {reference : TypeReference}

theorem Tree.resolve_eq_ok_iff :
    tree.resolve registry = .ok reference ↔ Denotes registry tree reference := by
  refine ⟨fun h => ?_, Denotes.resolve_eq⟩
  have hanswer := tree.isAnswer_resolve registry
  rw [h] at hanswer
  exact (IsAnswer.ok_iff.mp hanswer).2

/-- Reading a type reference is looking up its tree. -/
theorem parse_of_spells {text : String} (h : Spells text.toList tree) :
    parse registry text = tree.resolve registry := by
  rw [parse, readText_eq_ok_iff.mpr h]

/-- Exactly the type references are read whose trees stand for one in the registry. -/
theorem parse_eq_ok_iff {text : String} : parse registry text = .ok reference ↔
    ∃ tree, Spells text.toList tree ∧ Denotes registry tree reference := by
  constructor
  · intro h
    cases hread : readText text with
    | error miss =>
        rw [parse, hread] at h
        cases h
    | ok tree =>
        have hspells := readText_eq_ok_iff.mp hread
        exact ⟨tree, hspells, Tree.resolve_eq_ok_iff.mp ((parse_of_spells hspells).symm.trans h)⟩
  · rintro ⟨tree, hspells, hdenotes⟩
    rw [parse_of_spells hspells, hdenotes.resolve_eq]

end TypeText
end LiveSchema
