import LiveSchema.Proofs.Project.Stages

/-!
# References of restored types

A document may give template parameters to its types.  When it is restored, the texts of a type are
checked before the type itself and the types behind it have their parameters, so a text may be refused
that is legal in the end, and one may be accepted that is not.  This does not concern references that
mention no such type.
-/

namespace LiveSchema
namespace SchemaDocument

open Registry

variable {document : SchemaDocument} {declared registry : Registry}

/-- No type has template parameters when it is declared. -/
theorem parameters_of_declared {names : List String}
    (h : names.foldlM document.declareType Registry.initial = .ok declared) {handle : TypeHandle}
    {definition : TypeDefinition} (hfound : declared.get? handle = some definition)
    (huser : definition.isBuiltin = false) : definition.parameters = [] := by
  refine foldlM_keeps (fun registry : Registry => ∀ handle definition,
    registry.get? handle = some definition → definition.isBuiltin = false →
      definition.parameters = []) ?_ formed_initial.parameters h handle definition hfound huser
  intro registry name after hblank hdeclared handle definition hfound huser
  unfold declareType at hdeclared
  split at hdeclared
  next => exact absurd hdeclared (by simp)
  next blank hnew =>
      split at hdeclared
      next => exact absurd hdeclared (by simp)
      next =>
          obtain rfl := Except.ok.inj hdeclared
          rw [get?_declare] at hfound
          split at hfound
          next =>
              obtain rfl := Option.some.inj hfound
              unfold blankDefinition? at hnew
              split at hnew <;> cases hnew <;> rfl
          next => exact hblank handle definition hfound huser

/-- A reference that mentions no type which still gets parameters is legal at its stage just if it is
legal in the end. -/
theorem legal_withParameters_iff
    (hdeclared : document.typeNames.foldlM document.declareType Registry.initial = .ok declared)
    {index : Nat} {reference : TypeReference}
    (hlater : ∀ later ∈ declared.userTypes.drop index, reference.mentions later = true →
      document.parametersOf (declared.nameOf later) = []) :
    (document.withParameters declared (declared.userTypes.take index)).Legal reference ↔
      (document.withParameters declared declared.userTypes).Legal reference := by
  have houtline : ∀ handle, reference.mentions handle = true →
      (document.withParameters declared declared.userTypes).outline? handle =
        (document.withParameters declared (declared.userTypes.take index)).outline? handle := by
    intro handle hmentions
    rw [outline?, outline?, get?_withParameters, get?_withParameters, Option.map_map,
      Option.map_map]
    refine Option.map_congr fun definition hfound => ?_
    rw [Function.comp_apply, Function.comp_apply]
    by_cases htaken : handle ∈ declared.userTypes.take index
    · rw [if_pos htaken, if_pos (List.mem_of_mem_take htaken)]
    · rw [if_neg htaken]
      split
      next huser =>
          -- the type comes later, and gets no parameters
          have hdropped : handle ∈ declared.userTypes.drop index := by
            rw [← List.take_append_drop index declared.userTypes] at huser
            exact (List.mem_append.mp huser).resolve_left htaken
          obtain ⟨found, hfound', hbuiltin⟩ := mem_userTypes.mp huser
          obtain rfl := Option.some.inj (hfound.symm.trans hfound')
          have hnone := hlater handle hdropped hmentions
          rw [nameOf_of_get? hfound] at hnone
          rw [hnone, ← parameters_of_declared hdeclared hfound hbuiltin]
      next => rfl
  exact ⟨fun h => h.congr houtline, fun h => h.congr fun handle hmentions =>
    (houtline handle hmentions).symm⟩

/-- A document whose types can be declared is restored just if every type has a descriptor and every
text of it spells a reference that is legal as long as only the types before it have their parameters.
What a text spells is the same in the restored registry, in which a reference is legal if it is so once
all types have their parameters.  Both legalities agree on a reference that mentions no type which gets
parameters only then; so every such reference that was restored is legal. -/
theorem restored_references (document : SchemaDocument) {declared : Registry}
    (hversion : document.version = schemaVersion)
    (hdeclared : document.typeNames.foldlM document.declareType Registry.initial = .ok declared) :
    let types := declared.userTypes
    let stage := fun index => document.withParameters declared (types.take index)
    let finished := document.withParameters declared types
    let settled := fun index (reference : TypeReference) => ∀ later ∈ types.drop index,
      reference.mentions later = true → document.parametersOf (declared.nameOf later) = []
    ((∃ registry, document.restore = .ok registry) ↔
        ∀ index handle, types[index]? = some handle →
          ∃ descriptor, document.descriptors.get? (declared.nameOf handle) = some descriptor ∧
            ∀ text ∈ descriptor.texts, ∃ reference,
              TypeText.parse declared text = .ok reference ∧
                Legality.checkReference (stage index) reference = .ok ()) ∧
      (∀ index reference, settled index reference →
        (Legality.checkReference (stage index) reference = .ok () ↔
          Legality.checkReference finished reference = .ok ())) ∧
      ∀ registry, document.restore = .ok registry →
        (∀ text, TypeText.parse registry text = TypeText.parse declared text) ∧
          (∀ reference, Legality.checkReference registry reference = .ok () ↔
            Legality.checkReference finished reference = .ok ()) ∧
          ∀ index handle, types[index]? = some handle →
            ∀ reference, registry.Refers handle reference → settled index reference →
              Legality.checkReference registry reference = .ok () := by
  intro types stage finished settled
  have hrestore : document.restore = types.foldlM document.describeType declared := by
    rw [restore, if_neg (not_not.mpr hversion), hdeclared]
    rfl
  have hstart := sameOutlines_withParameters_nil document declared
  have hlive : ∀ handle ∈ types, declared.isLive handle = true := by
    intro handle hmem
    obtain ⟨definition, hfound, -⟩ := mem_userTypes.mp hmem
    exact isLive_of_get? hfound
  simp only [hrestore, Legality.checkReference_eq_ok]
  refine ⟨?_, fun index reference hsettled => legal_withParameters_iff hdeclared hsettled,
    fun registry h => ?_⟩
  · rw [exists_foldlM_describeType_iff hstart hlive]
    rfl
  · obtain ⟨hend, -, hrefers⟩ := foldlM_describeType_ok hstart hlive declared.nodup_userTypes h
    rw [List.nil_append] at hend
    have hnames := (sameNames_withParameters document declared types).trans hend.toSameNames
    refine ⟨hnames.parse_eq, fun reference => hend.legal_iff, ?_⟩
    intro index handle hindex reference href hsettled
    obtain ⟨-, -, -, -, -, hlegal⟩ := hrefers index handle hindex reference href
    exact hend.legal_iff.mpr ((legal_withParameters_iff hdeclared hsettled).mp hlegal)

/-! ## A type that is used before it has its parameter -/

/-- Two structs, of which the first has a field of the given type, and the second has a parameter. -/
def forwardDocument (text : String) : SchemaDocument where
  version := schemaVersion
  variants := NameMap.ofList [("A", .struct), ("B", .struct)]
  descriptors := NameMap.ofList
    [("A", ⟨none, [], .empty, [⟨"f", text, .empty, ""⟩], []⟩),
      ("B", ⟨none, [⟨"T", .anyType, .empty⟩], .empty, [], []⟩)]
  order := ["A", "B"]

/-- The structs of the document. -/
def forwardTypes : Registry :=
  (Registry.initial.declare (.newRecord .struct "A")).declare (.newRecord .struct "B")

theorem declareTypes_forwardDocument (text : String) :
    (forwardDocument text).typeNames.foldlM (forwardDocument text).declareType Registry.initial =
      .ok forwardTypes := by
  rfl

/-- The second struct, with the integers as its argument. -/
def appliedStruct : TypeReference := ⟨⟨38⟩, [.type (.plain ⟨5⟩)]⟩

/-- A text with the names of the second struct and of the integers spells the reference it renders. -/
theorem parse_forwardTypes {reference : TypeReference} {text : String}
    (htext : forwardTypes.render reference = text)
    (hnames : ∀ handle, reference.mentions handle = true → handle = ⟨38⟩ ∨ handle = ⟨5⟩) :
    TypeText.parse forwardTypes text = .ok reference := by
  have hnamed : TypeText.Named forwardTypes forwardTypes id reference := by
    intro handle hmentions
    rcases hnames handle hmentions with rfl | rfl
    · exact ⟨⟨'B', [], by decide⟩, by decide +kernel⟩
    · exact ⟨⟨'i', ['3', '2'], by decide⟩, by decide +kernel⟩
  rw [← htext, TypeText.parse_render hnamed, TypeReference.relocate_id]

theorem parse_plainStruct : TypeText.parse forwardTypes "B" = .ok (.plain ⟨38⟩) := by
  refine parse_forwardTypes (by decide +kernel) fun handle hmentions => Or.inl ?_
  simpa [TypeReference.plain, TypeReference.mentions, TemplateArgument.anyMentions, eq_comm]
    using hmentions

theorem parse_appliedStruct : TypeText.parse forwardTypes "B<i32>" = .ok appliedStruct := by
  refine parse_forwardTypes (by decide +kernel) fun handle hmentions => ?_
  have hnamed : ⟨38⟩ = handle ∨ ⟨5⟩ = handle := by
    simpa [appliedStruct, TypeReference.plain, TypeReference.mentions,
      TemplateArgument.anyMentions] using hmentions
  exact hnamed.imp Eq.symm Eq.symm

/-- A text is refused that spells a legal reference in the end, and one is accepted that does not. -/
theorem restored_references_of_forwardDocument :
    ((¬ ∃ registry, (forwardDocument "B<i32>").restore = .ok registry) ∧
        TypeText.parse forwardTypes "B<i32>" = .ok appliedStruct ∧
        Legality.checkReference ((forwardDocument "B<i32>").withParameters forwardTypes
          forwardTypes.userTypes) appliedStruct = .ok ()) ∧
      ∃ registry, (forwardDocument "B").restore = .ok registry ∧
        TypeText.parse registry "B" = .ok (.plain ⟨38⟩) ∧
        Legality.checkReference registry (.plain ⟨38⟩) ≠ .ok () := by
  have husers : forwardTypes.userTypes = [⟨37⟩, ⟨38⟩] := by decide +kernel
  have hfirst : ∀ text, (forwardDocument text).descriptors.get? (forwardTypes.nameOf ⟨37⟩) =
      some ⟨none, [], .empty, [⟨"f", text, .empty, ""⟩], []⟩ := by
    intro text
    rw [show forwardTypes.nameOf ⟨37⟩ = "A" by decide +kernel]
    simp [forwardDocument, NameMap.ofList, NameMap.get?_insert]
  have hsecond : ∀ text, (forwardDocument text).descriptors.get? (forwardTypes.nameOf ⟨38⟩) =
      some ⟨none, [⟨"T", .anyType, .empty⟩], .empty, [], []⟩ := by
    intro text
    rw [show forwardTypes.nameOf ⟨38⟩ = "B" by decide +kernel]
    simp [forwardDocument, NameMap.ofList, NameMap.get?_insert]
  refine ⟨⟨fun hrestored => ?_, parse_appliedStruct, by decide +kernel⟩, ?_⟩
  · obtain ⟨hstages, -, -⟩ := restored_references (forwardDocument "B<i32>") rfl
      (declareTypes_forwardDocument "B<i32>")
    rw [husers] at hstages
    obtain ⟨descriptor, hdescriptor, htexts⟩ := hstages.mp hrestored 0 ⟨37⟩ rfl
    obtain rfl := Option.some.inj ((hfirst "B<i32>").symm.trans hdescriptor)
    obtain ⟨reference, hspelled, hlegal⟩ := htexts "B<i32>" (by simp [TypeDescriptor.texts])
    obtain rfl := Except.ok.inj (parse_appliedStruct.symm.trans hspelled)
    -- the struct does not have its parameter yet
    exact absurd hlegal (by decide +kernel)
  · obtain ⟨hstages, -, hrestored⟩ := restored_references (forwardDocument "B") rfl
      (declareTypes_forwardDocument "B")
    rw [husers] at hstages hrestored
    obtain ⟨registry, hregistry⟩ := hstages.mpr fun index handle hindex => by
      rcases index with _ | _ | index
      · obtain rfl := Option.some.inj hindex
        refine ⟨_, hfirst "B", fun text htext => ?_⟩
        obtain rfl : text = "B" := by simpa [TypeDescriptor.texts] using htext
        exact ⟨_, parse_plainStruct, by decide +kernel⟩
      · obtain rfl := Option.some.inj hindex
        exact ⟨_, hsecond "B", by simp [TypeDescriptor.texts]⟩
      · exact absurd hindex (by simp)
    obtain ⟨hparse, hlegal, -⟩ := hrestored registry hregistry
    refine ⟨registry, hregistry, (hparse "B").trans parse_plainStruct, fun hillegal => ?_⟩
    exact absurd ((hlegal (.plain ⟨38⟩)).mp hillegal) (by decide +kernel)

end SchemaDocument
end LiveSchema
