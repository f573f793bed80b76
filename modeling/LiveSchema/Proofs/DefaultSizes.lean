import LiveSchema.Proofs.Project.Alternatives
import LiveSchema.Proofs.Value.DefaultNodes
import Mathlib

/-!
# Default sizes count values

Where no record is met again inside itself, building a default ends, and the size that is computed
without building it is the number of values in it, up to the limit.  The index of a variant is the one
value that does not count.  This asks for records whose effective fields have names of their own: of two
fields with one name the size counts both, but the default holds only one.
-/

namespace LiveSchema
namespace Registry

open Relation

variable {registry : Registry} {reference part : TypeReference} {within : List TypeHandle}

/-! ## Containment -/

/-- The default of the record is built for itself. -/
def Circular (registry : Registry) (record : TypeHandle) : Prop :=
  registry.IsRecord record ∧ ∃ whole part : TypeReference,
    whole.handle = record ∧ part.handle = record ∧ TransGen registry.AsksFor whole part

/-- What is asked for can be reached by value from something that the reference holds. -/
theorem exists_holds_of_asksFor (h : ReflTransGen registry.AsksFor reference part) :
    ∃ held, registry.Holds reference held ∧ ReflTransGen registry.ByValue held part.handle := by
  induction h using ReflTransGen.head_induction_on with
  | refl => exact ⟨part.handle, .head part, .refl⟩
  | @head whole next hasks _ ih =>
      obtain ⟨held, hholds, hpath⟩ := ih
      cases hasks with
      | field hrecord hfield =>
          exact ⟨whole.handle, .head whole, .head ⟨_, hfield, hholds⟩ hpath⟩
      | element hbuiltin hargument | alternative hbuiltin hargument =>
          exact ⟨held, holds_of_builtin hbuiltin (by simp) (by simp) hargument hholds, hpath⟩

/-- Where no record holds itself by value, no default is built for itself. -/
theorem not_circular_of_acyclic (h : Acyclic registry.ByValue) (record : TypeHandle) :
    ¬ registry.Circular record := by
  rintro ⟨⟨definition, hfound, hrecord⟩, whole, part, rfl, hpart, hpath⟩
  obtain ⟨next, hasks, hrest⟩ := TransGen.head'_iff.mp hpath
  obtain ⟨own, hbody⟩ := TypeDefinition.isRecord_iff.mp hrecord
  obtain ⟨field, hfield, rfl⟩ := hasks.exists_field hfound hbody
  obtain ⟨held, hholds, hreached⟩ := exists_holds_of_asksFor hrest
  have hstep : registry.ByValue whole.handle held := ⟨field, hfield, hholds⟩
  rw [hpart] at hreached
  exact h whole.handle (TransGen.head' hstep hreached)

/-- Without circles every type has a default, also inside records that are being built.  Each of these
records asks for the type. -/
theorem exists_defaultWithin?_of_not_circular (hcircles : ∀ record, ¬ registry.Circular record)
    (hasked : ∀ record ∈ within, registry.IsRecord record ∧
      ∃ whole, whole.handle = record ∧ TransGen registry.AsksFor whole reference) :
    ∃ value, registry.defaultWithin? within reference = some value := by
  induction within, reference using building_induction registry with
  | step within reference inner inside =>
      have hopen : registry.IsRecord reference.handle → reference.handle ∉ within := by
        intro _ hmem
        obtain ⟨hrecord, whole, hwhole, hpath⟩ := hasked _ hmem
        exact hcircles _ ⟨hrecord, whole, reference, hwhole, rfl, hpath⟩
      have hstep : ∀ part, registry.AsksFor reference part → ∀ record ∈ within,
          registry.IsRecord record ∧
            ∃ whole, whole.handle = record ∧ TransGen registry.AsksFor whole part := by
        intro part hasks record hmem
        obtain ⟨hrecord, whole, hwhole, hpath⟩ := hasked record hmem
        exact ⟨hrecord, whole, hwhole, hpath.tail hasks⟩
      refine exists_defaultWithin?_of_parts hopen (fun hrecord field hfield => ?_) ?_
      · have hasks : registry.AsksFor reference field.type := .field hrecord hfield
        refine inside hrecord (hopen hrecord) field.type fun record hmem => ?_
        rcases List.mem_cons.mp hmem with rfl | hmem
        · exact ⟨hrecord, reference, rfl, .single hasks⟩
        · exact hstep field.type hasks record hmem
      · intro part hpart hasks
        exact inner part (TypeReference.mem_of_typeArgument? hpart) (hstep part hasks)

theorem exists_default?_of_not_circular (hcircles : ∀ record, ¬ registry.Circular record)
    (reference : TypeReference) : ∃ value, registry.default? reference = some value :=
  exists_defaultWithin?_of_not_circular hcircles fun _ hmem => absurd hmem List.not_mem_nil

/-! ## Counting -/

/-- Where no two effective fields of a record share a name, the size of a type measures its default. -/
theorem measures_of_defaultWithin? (hgrounded : registry.Grounded)
    (hnames : ∀ record, registry.IsRecord record → (registry.allFieldNames record).Nodup)
    (halternatives : registry.HasAlternatives reference) {value : Json}
    (hvalue : registry.defaultWithin? within reference = some value) :
    registry.Measures reference value (registry.sizeWithin within reference) := by
  induction within, reference using building_induction registry generalizing value with
  | step within reference inner inside =>
      cases hfound : registry.get? reference.handle with
      | none =>
          rw [defaultWithin?_of_none hfound, Option.some.injEq] at hvalue
          subst hvalue
          rw [sizeWithin_of_none hfound]
          refine measures_of_scalar rfl ?_ ?_
          · simp [childValues, parts, hfound, Parts.children]
          · simp [builtin?, hfound]
      | some definition =>
          cases hbody : definition.body with
          | enumeration enumeration =>
              rw [defaultWithin?_enumeration hfound hbody, Option.some.injEq] at hvalue
              subst hvalue
              rw [sizeWithin_enumeration hfound hbody]
              refine measures_of_scalar ?_ ?_ (builtin?_of_body hfound (by simp [hbody]))
              · rw [Json.ofInt_toInt]
                rfl
              · simp [childValues, parts, hfound, hbody, Parts.children]
          | record record =>
              have hrecord : registry.IsRecord reference.handle :=
                ⟨definition, hfound, TypeDefinition.isRecord_iff.mpr ⟨record, hbody⟩⟩
              refine measures_record hfound hbody (hnames _ hrecord) hvalue ?_
              intro hfresh field hfield held hheld
              exact inside hrecord hfresh field.type (hgrounded.allFields hfield) hheld
          | builtin builtin =>
              have hbuiltin := builtin?_eq_some.mpr ⟨definition, hfound, hbody⟩
              by_cases harray : builtin = .array
              · subst harray
                refine measures_array hfound hbody hvalue fun part hpart held hheld => ?_
                have hmem := TypeReference.mem_of_typeArgument? hpart
                exact inner part hmem (halternatives.inside hmem) hheld
              · by_cases hvariant : builtin = .variant
                · subst hvariant
                  obtain ⟨first, hfirst⟩ := halternatives.here hbuiltin
                  refine measures_variant hfound hbody hfirst hvalue fun held hheld => ?_
                  have hmem := TypeReference.mem_of_typeArgument? hfirst
                  exact inner first hmem (halternatives.inside hmem) hheld
                · rw [defaultWithin?_simple hfound hbody harray hvariant, Option.some.injEq] at hvalue
                  subst hvalue
                  exact measures_simpleDefault hfound hbody harray hvariant

/-- On a registry where no default is built for itself and no two effective fields of a record share a
name, every legal type has a default, and its size is the number of JSON values in this default, the
indexes of variants apart, up to the limit of 64 bits. -/
theorem defaultSize_eq_min (hgrounded : registry.Grounded)
    (hcircles : ∀ record, ¬ registry.Circular record)
    (hnames : ∀ record, registry.IsRecord record → (registry.allFieldNames record).Nodup)
    (hlegal : Legality.checkReference registry reference = .ok ()) :
    ∃ value n, registry.default? reference = some value ∧
      n + registry.variants reference value = value.nodes ∧
      registry.defaultSize reference = min n sizeLimit := by
  obtain ⟨value, hvalue⟩ := exists_default?_of_not_circular hcircles reference
  have halternatives := hgrounded.builtins.hasAlternatives (Legality.checkReference_eq_ok.mp hlegal)
  obtain ⟨n, hnodes, hsize⟩ := measures_of_defaultWithin? hgrounded hnames halternatives hvalue
  exact ⟨value, n, hvalue, hnodes, hsize⟩

/-- The registry of a struct with one field that holds nothing. -/
def singleField : Registry :=
  (initial.declare (.newRecord .struct "Struct1")).modifyFields ⟨37⟩ fun fields =>
    fields ++ [⟨"field1", .plain void, .empty, ""⟩]

theorem wellFormed_singleField : singleField.WellFormed := by
  have hfresh : Database.Reachable id Database.inMemory := .fresh
  exact ((hfresh.step ⟨0, 0⟩ NameMap.empty .addStruct).step ⟨0, 0⟩ NameMap.empty
    (.addField ⟨37⟩)).wellFormed

/-- Three variants that hold a struct with one field make ten values.  Nested arrays make more values
than there are numbers of 64 bits, and an array of them without elements makes one. -/
theorem defaultSize_eq_min_of_arrays :
    let array (element : TypeReference) (count : UInt64) : TypeReference :=
      ⟨⟨16⟩, [.type element, .size count]⟩
    let variants := array ⟨⟨19⟩, [.type (.plain ⟨37⟩)]⟩ 3
    let huge := array (array (array (array (.plain ⟨36⟩) 65536) 65536) 65536) 65536
    (∃ value, singleField.default? variants = some value ∧
        10 + singleField.variants variants value = value.nodes) ∧
      singleField.defaultSize variants = 10 ∧ singleField.defaultSize huge = sizeLimit ∧
      ∃ value, singleField.default? (array huge 0) = some value ∧
        1 + singleField.variants (array huge 0) value = value.nodes := by
  intro array variants huge
  have hwf := wellFormed_singleField
  have hcircles := not_circular_of_acyclic hwf.containment
  have hnames : ∀ record, singleField.IsRecord record →
      (singleField.allFieldNames record).Nodup := fun record _ => hwf.names record
  have hsmall : Legality.checkReference singleField variants = .ok () := by decide +kernel
  have hempty : Legality.checkReference singleField (array huge 0) = .ok () := rfl
  have hten : singleField.defaultSize variants = 10 := by
    simp only [variants, array]
    cbv
  have hone : singleField.defaultSize (array huge 0) = 1 := by
    simp only [huge, array]
    cbv
  have hlimit : singleField.defaultSize huge = sizeLimit := by
    simp only [huge, array]
    cbv
  refine ⟨?_, hten, hlimit, ?_⟩
  · obtain ⟨value, n, hvalue, hnodes, hsize⟩ :=
      defaultSize_eq_min hwf.toFormed.grounded hcircles hnames hsmall
    have hn : n = 10 := by
      have hmin := hten.symm.trans hsize
      unfold sizeLimit at hmin
      omega
    exact ⟨value, hvalue, hn ▸ hnodes⟩
  · obtain ⟨value, n, hvalue, hnodes, hsize⟩ :=
      defaultSize_eq_min hwf.toFormed.grounded hcircles hnames hempty
    have hn : n = 1 := by
      have hmin := hone.symm.trans hsize
      unfold sizeLimit at hmin
      omega
    exact ⟨value, hvalue, hn ▸ hnodes⟩

/-! ## Two fields of one name -/

/-- A document with one struct that declares the same field twice. -/
def twinDocument : SchemaDocument where
  version := schemaVersion
  variants := NameMap.ofList [("A", .struct)]
  descriptors := NameMap.ofList
    [("A", ⟨none, [], .empty, [⟨"f", "i32", .empty, ""⟩, ⟨"f", "i32", .empty, ""⟩], []⟩)]
  order := []

/-- The registry that the document holds. -/
def twins : Registry :=
  (initial.declare (.newRecord .struct "A")).modifyFields ⟨37⟩ fun _ =>
    [⟨"f", .plain ⟨5⟩, .empty, ""⟩, ⟨"f", .plain ⟨5⟩, .empty, ""⟩]

theorem restore_twinDocument : twinDocument.restore = .ok twins := by
  cbv

theorem acyclic_twins : Acyclic twins.ByValue := by
  have hpart : ∀ record part, twins.ByValue record part → part = ⟨5⟩ := by
    rintro record part ⟨field, hfield, hholds⟩
    rw [allFields_eq_flatMap, List.mem_flatMap] at hfield
    obtain ⟨owner, -, hown⟩ := hfield
    have htype : field.type = .plain ⟨5⟩ := by
      by_cases howner : owner = ⟨37⟩
      · subst howner
        have hfields : ∀ own ∈ twins.ownFields ⟨37⟩, own.type = .plain ⟨5⟩ := by decide
        exact hfields field hown
      · obtain ⟨definition, hfound, hrecord, -⟩ := get?_of_mem_ownFields hown
        rw [twins, modifyFields, modifyRecord, get?_modify_of_ne _ howner, get?_declare] at hfound
        split at hfound
        next hnext => exact absurd hnext howner
        next => exact absurd ⟨definition, hfound, hrecord⟩ (isRecord_initial owner)
    rw [htype] at hholds
    cases hholds with
    | head => rfl
    | argument _ hmem _ => exact absurd hmem List.not_mem_nil
  intro record hcircle
  -- a circle would lead through the integers, which have no fields
  obtain ⟨last, -, hlast⟩ := TransGen.tail'_iff.mp hcircle
  obtain rfl := hpart last record hlast
  obtain ⟨first, ⟨field, hfield, -⟩, -⟩ := TransGen.head'_iff.mp hcircle
  have hnone : twins.allFields ⟨5⟩ = [] := rfl
  exact absurd (hnone ▸ hfield) List.not_mem_nil

/-- The size of the struct is three, but its default is an object with one value. -/
theorem defaultSize_ne_min_of_twins :
    twinDocument.restore = .ok twins ∧ twins.Grounded ∧ Acyclic twins.ByValue ∧
      Legality.checkReference twins (.plain ⟨37⟩) = .ok () ∧
      ¬ ∃ value n, twins.default? (.plain ⟨37⟩) = some value ∧
        n + twins.variants (.plain ⟨37⟩) value = value.nodes ∧
        twins.defaultSize (.plain ⟨37⟩) = min n sizeLimit := by
  refine ⟨restore_twinDocument, SchemaDocument.grounded_of_restore restore_twinDocument,
    acyclic_twins, by decide, ?_⟩
  rintro ⟨value, n, hvalue, hnodes, hsize⟩
  have hdefault : twins.default? (.plain ⟨37⟩) = some (.object [("f", .ofNat 0)]) := by cbv
  obtain rfl := Option.some.inj (hdefault.symm.trans hvalue)
  have hthree : twins.defaultSize (.plain ⟨37⟩) = 3 := by cbv
  have htwo : (Json.object [("f", .ofNat 0)]).nodes = 2 := by
    rw [Json.nodes_eq]
    simp [Json.inner, Json.nodes_of_inner (show (Json.ofNat 0).inner = [] from rfl)]
  have hmin := hthree.symm.trans hsize
  unfold sizeLimit at hmin
  omega

end Registry
end LiveSchema
