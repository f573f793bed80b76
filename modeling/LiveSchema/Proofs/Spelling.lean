import LiveSchema.Proofs.LegalNames
import LiveSchema.Proofs.Schema.Words
import LiveSchema.Proofs.TypeText.Roundtrip

/-!
# Type references as texts

In every database that mutations lead to, a type reference is read back from its text, whether it is
legal or not, as long as the types in it are live: their names are words, and each of them is found
under its name.
-/

namespace LiveSchema

namespace Registry

variable {registry : Registry} {reference : TypeReference}

/-- Every type in a reference is live. -/
def AllLive (registry : Registry) (reference : TypeReference) : Prop :=
  ∀ handle, reference.mentions handle = true → registry.isLive handle = true

/-- Where names are words and belong to one type each, the text of a reference to live types stands for
this reference. -/
theorem WellFormed.parse_render (hwf : registry.WellFormed) (hwords : registry.HasWords)
    (hlive : registry.AllLive reference) :
    TypeText.parse registry (registry.render reference) = .ok reference := by
  have hnamed : TypeText.Named registry registry id reference := by
    intro handle hmentions
    obtain ⟨definition, hfound⟩ := isLive_iff.mp (hlive handle hmentions)
    rw [nameOf_of_get? hfound]
    exact ⟨hwords handle definition hfound, hwf.resolve?_eq_some.mpr ⟨definition, hfound, rfl⟩⟩
  rw [TypeText.parse_render hnamed, TypeReference.relocate_id]

end Registry

namespace Database

variable {digest : String → String} {database : Database}

/-- In every database that can be reached, a reference to live types is read back from its text, so
that two of them never have the same text. -/
theorem parse_render_of_reachable (h : Reachable digest database) :
    (∀ reference, database.content.registry.AllLive reference →
      TypeText.parse database.content.registry (database.content.registry.render reference) =
        .ok reference) ∧
      ∀ first second, database.content.registry.AllLive first →
        database.content.registry.AllLive second →
          database.content.registry.render first = database.content.registry.render second →
            first = second := by
  have hread : ∀ reference, database.content.registry.AllLive reference →
      TypeText.parse database.content.registry (database.content.registry.render reference) =
        .ok reference := fun _ hlive =>
    h.wellFormed.parse_render (h.wellNamed.types.hasWords h.wellFormed.toFormed) hlive
  refine ⟨hread, fun first second hfirst hsecond hsame => ?_⟩
  have hboth := (hread first hfirst).symm.trans (hsame ▸ hread second hsecond)
  exact Except.ok.inj hboth

/-- A map from the new struct to arrays that lack their element type and have two sizes instead. -/
theorem parse_render_of_struct_in_map :
    let database := (inMemory.apply id ⟨0, 0⟩ NameMap.empty .addStruct).database
    let reference : TypeReference :=
      ⟨⟨20⟩, [.type (.plain ⟨37⟩), .type ⟨⟨16⟩, [.size 3, .size 0xFFFFFFFFFFFFFFFF]⟩]⟩
    database.content.registry.render reference = "map<Struct1,array<3,18446744073709551615>>" ∧
      TypeText.parse database.content.registry (database.content.registry.render reference) =
        .ok reference := by
  intro database reference
  have hreachable : Reachable id database := (Reachable.fresh).step ⟨0, 0⟩ NameMap.empty .addStruct
  have hlive : database.content.registry.AllLive reference := by
    intro handle hmentions
    simp only [reference, TypeReference.plain, TypeReference.mentions,
      TemplateArgument.anyMentions, Bool.or_false, Bool.or_eq_true, decide_eq_true_eq] at hmentions
    obtain rfl | rfl | rfl := hmentions
    · rfl
    · rfl
    · rfl
  exact ⟨rfl, (parse_render_of_reachable hreachable).1 reference hlive⟩

end Database
end LiveSchema
