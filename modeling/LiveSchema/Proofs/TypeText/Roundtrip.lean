import LiveSchema.Proofs.Schema.Legal
import LiveSchema.Proofs.TypeText.Meaning

/-!
# Reading back type references

The text that one registry writes for a type reference is read in another registry as the same
reference, its handles replaced by those under which the other registry has the names.
-/

namespace LiveSchema

namespace TypeText

variable {registry restored : Registry} {ρ : TypeHandle → TypeHandle} {reference : TypeReference}

/-- The types that a reference mentions have names that are words, under which the other registry has
them at its new places. -/
def Named (registry restored : Registry) (ρ : TypeHandle → TypeHandle) (reference : TypeReference) :
    Prop :=
  ∀ handle, reference.mentions handle = true → IsWord (registry.nameOf handle).toList ∧
    restored.resolve? (registry.nameOf handle) = some (ρ handle)

theorem Named.inner (h : Named registry restored ρ reference) {inner : TypeReference}
    (hmem : TemplateArgument.type inner ∈ reference.arguments) : Named registry restored ρ inner :=
  fun handle hhandle => h handle (TypeReference.mentions_of_mem hmem hhandle)

/-- The text of a reference spells, wherever it stands, the reference at its new places. -/
def IsSpelled (registry restored : Registry) (ρ : TypeHandle → TypeHandle)
    (reference : TypeReference) : Prop :=
  ∀ start, ∃ tree, SpellsType start (registry.render reference).toList tree ∧
    Denotes restored tree (reference.relocate ρ)

theorem exists_spellsArgument {argument : TemplateArgument}
    (h : ∀ inner, argument = .type inner → IsSpelled registry restored ρ inner) (start : Nat)
    (rest : List TemplateArgument) :
    ∃ first, SpellsArgument start (registry.renderArgument argument).toList first ∧
      ∀ trees, DenotesAll restored trees (TemplateArgument.relocateAll ρ rest) →
        DenotesAll restored (first :: trees) (TemplateArgument.relocateAll ρ (argument :: rest)) := by
  cases argument with
  | size count =>
      rw [Registry.renderArgument, Nat.toList_repr, TemplateArgument.relocateAll]
      exact ⟨_, .size (isNumeral_toDigits _), fun _ hrest =>
        .size (Text.ofDigits_ofNat count.toNat).symm hrest⟩
  | type inner =>
      obtain ⟨tree, hspells, hdenotes⟩ := h inner rfl start
      rw [Registry.renderArgument, TemplateArgument.relocateAll]
      exact ⟨.type tree, .type hspells, fun _ hrest => .type hdenotes hrest⟩

theorem exists_spellsArguments {first : TemplateArgument} {others : List TemplateArgument}
    (h : ∀ inner, TemplateArgument.type inner ∈ first :: others →
      IsSpelled registry restored ρ inner) (start : Nat) :
    ∃ trees, SpellsArguments start ((registry.renderArgument first).toList ++
        ((registry.renderFurther others).toList ++ ['>'])) trees ∧
      DenotesAll restored trees (TemplateArgument.relocateAll ρ (first :: others)) := by
  induction others generalizing first start with
  | nil =>
      obtain ⟨tree, hspells, hdenotes⟩ := exists_spellsArgument
        (fun inner hsame => h inner (hsame ▸ List.mem_cons_self)) start []
      refine ⟨[tree], ?_, hdenotes [] (by rw [TemplateArgument.relocateAll]; exact .nil)⟩
      rw [Registry.renderFurther]
      exact .last isBlank_nil isBlank_nil hspells
  | cons second others ih =>
      obtain ⟨tree, hspells, hdenotes⟩ := exists_spellsArgument
        (fun inner hsame => h inner (hsame ▸ List.mem_cons_self)) start (second :: others)
      obtain ⟨trees, hfurther, htrees⟩ := @ih second
        (fun inner hmem => h inner (List.mem_cons_of_mem _ hmem))
        (start + width (registry.renderArgument first).toList + 1)
      refine ⟨tree :: trees, ?_, hdenotes trees htrees⟩
      have hsplit : (registry.renderFurther (second :: others)).toList ++ ['>'] =
          [] ++ ',' :: ((registry.renderArgument second).toList ++
            ((registry.renderFurther others).toList ++ ['>'])) := by
        simp [Registry.renderFurther]
      rw [hsplit]
      exact .more isBlank_nil isBlank_nil hspells hfurther

theorem isSpelled (h : Named registry restored ρ reference) :
    IsSpelled registry restored ρ reference := by
  induction reference using TypeReference.inner_induction with
  | step reference ih =>
      intro start
      have hinner : ∀ inner, TemplateArgument.type inner ∈ reference.arguments →
          IsSpelled registry restored ρ inner := fun inner hmem => ih inner hmem (h.inner hmem)
      obtain ⟨hword, hname⟩ := h _ (TypeReference.mentions_head reference)
      obtain ⟨handle, arguments⟩ := reference
      rw [← @String.ofList_toList (registry.nameOf handle)] at hname
      cases arguments with
      | nil =>
          rw [Registry.render, TypeReference.relocate, TemplateArgument.relocateAll]
          exact ⟨_, .name hword, .intro hname .nil⟩
      | cons first others =>
          obtain ⟨trees, hspells, hdenotes⟩ := exists_spellsArguments hinner
            (start + width (registry.nameOf handle).toList + 1)
          have hsplit : (registry.render ⟨handle, first :: others⟩).toList =
              (registry.nameOf handle).toList ++ ([] ++ '<' ::
                ((registry.renderArgument first).toList ++
                  ((registry.renderFurther others).toList ++ ['>']))) := by
            simp [Registry.render]
          rw [hsplit, TypeReference.relocate]
          exact ⟨_, .applied hword isBlank_nil hspells, .intro hname hdenotes⟩

/-- The text of a reference is read as the reference at its new places. -/
theorem parse_render (h : Named registry restored ρ reference) :
    parse restored (registry.render reference) = .ok (reference.relocate ρ) := by
  obtain ⟨tree, hspells, hdenotes⟩ := isSpelled h 0
  exact parse_eq_ok_iff.mpr ⟨tree, ⟨[], _, [], by simp, isBlank_nil, isBlank_nil, hspells⟩, hdenotes⟩

end TypeText
end LiveSchema
