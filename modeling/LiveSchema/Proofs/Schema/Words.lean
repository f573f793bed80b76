import LiveSchema.Proofs.Schema.LegalNames
import LiveSchema.Proofs.TypeText.Tokens

/-!
# Names that are words

The text of a type reference can be read only if every name in it is a single word.  A legal name is
one, and so are the names of the built-in types.
-/

namespace LiveSchema

namespace Legality

/-- A legal name is one word. -/
theorem IsIdentifier.isWord {name : String} (h : IsIdentifier name) :
    TypeText.IsWord name.toList := by
  unfold IsIdentifier nameViolation? at h
  split at h
  next => exact absurd h (by simp)
  next first rest htext =>
      rw [htext]
      split at h
      · exact absurd h (by simp)
      · split at h
        · exact absurd h (by simp)
        · exact ⟨first, rest, rfl, by simpa using ‹¬ (!TypeText.startsIdentifier first) = true›,
            by simpa using ‹¬ (!rest.all TypeText.continuesIdentifier) = true›⟩

end Legality

namespace TypeText

/-- Whether a name is one identifier token. -/
def isWord : List Char → Bool
  | [] => false
  | first :: rest => startsIdentifier first && rest.all continuesIdentifier

theorem isWord_iff {name : List Char} : isWord name = true ↔ IsWord name := by
  cases name with
  | nil => simp [isWord, IsWord]
  | cons first rest => simp [isWord, IsWord]

/-- A character that may stand nowhere in a word is in none. -/
theorem IsWord.not_mem {name : List Char} (h : IsWord name) {c : Char}
    (hstarts : startsIdentifier c = false) (hcontinues : continuesIdentifier c = false) :
    c ∉ name := by
  obtain ⟨first, rest, rfl, hfirst, hrest⟩ := h
  intro hmem
  rcases List.mem_cons.mp hmem with rfl | hmem
  · exact absurd (hstarts.symm.trans hfirst) (by simp)
  · exact absurd (hcontinues.symm.trans (List.all_eq_true.mp hrest _ hmem)) (by simp)

theorem IsWord.slash_not_mem {name : List Char} (h : IsWord name) : '/' ∉ name :=
  h.not_mem (by decide) (by decide)

end TypeText

namespace Registry

/-- The names of all types are single words. -/
def HasWords (registry : Registry) : Prop :=
  ∀ handle definition, registry.get? handle = some definition →
    TypeText.IsWord definition.name.toList

/-- The names of the built-in types are words. -/
theorem isWord_builtin : ∀ builtin ∈ Builtin.all, TypeText.IsWord builtin.name.toList := by
  have hwords : (Builtin.all.map fun builtin => builtin.name.toList).all TypeText.isWord = true := by
    decide +kernel
  intro builtin hmem
  exact TypeText.isWord_iff.mp (List.all_eq_true.mp hwords _ (List.mem_map_of_mem hmem))

theorem WellNamed.hasWords {registry : Registry} (h : registry.WellNamed)
    (hformed : registry.Formed) : registry.HasWords := by
  intro handle definition hfound
  cases huser : definition.isBuiltin with
  | false => exact ((h handle definition hfound).own huser).isWord
  | true =>
      obtain ⟨builtin, hbody⟩ := TypeDefinition.isBuiltin_iff.mp huser
      rw [hformed.eq_ofBuiltin hfound hbody]
      exact isWord_builtin builtin (List.mem_of_getElem? (hformed.places _ _ _ hfound hbody))

end Registry

end LiveSchema
