import LiveSchema.Document.Schema
import LiveSchema.Proofs.Document.Decode
import LiveSchema.Proofs.Json.Integers
import LiveSchema.Proofs.Schema.Flags

/-!
# Reading back schema documents

The written form of a schema document is read back as the document itself.  None of its parts nests
deeply or holds anything but texts and integers, so nothing is asked of the document.
-/

namespace LiveSchema

/-! ## Keys of descriptors -/

theorem TemplateParameter.hasDistinctKeys_toJson (parameter : TemplateParameter) :
    parameter.toJson.HasDistinctKeys := by
  simp [toJson, Entries.keys]

theorem Enumerator.hasDistinctKeys_toJson (enumerator : Enumerator) :
    enumerator.toJson.HasDistinctKeys := by
  cases hvalue : enumerator.value <;> simp [toJson, Entries.keys, hvalue]

theorem FieldDescriptor.hasDistinctKeys_toJson (field : FieldDescriptor) :
    field.toJson.HasDistinctKeys := by
  have hkeys : ["name", "type", "flags", "description"].Nodup := by simp
  refine Json.hasDistinctKeys_object.mpr ⟨hkeys.sublist ?_, ?_⟩
  · simp only [Entries.keys_append]
    exact ((List.Sublist.refl ["name", "type"]).append
      (Entries.keys_entryUnless_sublist _ _ _)).append (Entries.keys_entryUnless_sublist _ _ _)
  · simp only [List.forall_mem_append]
    exact ⟨⟨by simp, Entries.forall_entryUnless Json.HasDistinctKeys (by simp) _ _⟩,
      Entries.forall_entryUnless Json.HasDistinctKeys (by simp) _ _⟩

theorem TypeDescriptor.hasDistinctKeys_toJson (descriptor : TypeDescriptor) :
    descriptor.toJson.HasDistinctKeys := by
  have hkeys : ["base", "template_parameters", "flags", "fields", "enumerators"].Nodup := by simp
  refine Json.hasDistinctKeys_object.mpr ⟨hkeys.sublist ?_, ?_⟩
  · simp only [Entries.keys_append]
    have hfirst : (Entries.keys (descriptor.base.toList.map fun base =>
        ("base", Json.string base))).Sublist ["base"] := by
      cases descriptor.base with
      | none => exact List.nil_sublist _
      | some base => exact List.Sublist.refl _
    exact ((((hfirst.append (Entries.keys_entryUnless_sublist _ _ _)).append
      (Entries.keys_entryUnless_sublist _ _ _)).append
        (Entries.keys_entryUnless_sublist _ _ _)).append
          (Entries.keys_entryUnless_sublist _ _ _))
  · simp only [List.forall_mem_append]
    have hunless : ∀ {value : Json}, value.HasDistinctKeys → ∀ omitted key,
        ∀ entry ∈ entryUnless omitted key value, entry.2.HasDistinctKeys := fun h =>
      Entries.forall_entryUnless Json.HasDistinctKeys h
    refine ⟨⟨⟨⟨by simp, hunless ?_ _ _⟩, hunless (by simp) _ _⟩, hunless ?_ _ _⟩, hunless ?_ _ _⟩
    · simpa using fun parameter _ => parameter.hasDistinctKeys_toJson
    · simpa using fun field _ => field.hasDistinctKeys_toJson
    · simpa using fun enumerator _ => enumerator.hasDistinctKeys_toJson

/-! ## Decoding descriptors -/

/-- What is written of a value is decoded to it, and is fit to be written. -/
structure Decoded {α : Type} (decode : Draft → Option α) (encode : α → Json) (bound : Nat) (a : α) :
    Prop where
  decoded : decode (Draft.ofJson (encode a)) = some a
  numbers : (encode a).NumbersReadBack
  depth : (encode a).depth ≤ bound

theorem TemplateParameter.decoded (parameter : TemplateParameter) :
    Decoded ofDraft? toJson 1 parameter where
  decoded := by
    have hqualifier : Qualifier.all.find?
        (fun choice => choice.name = parameter.qualifier.name) = some parameter.qualifier := by
      cases parameter.qualifier <;> decide
    have hflags := ParameterFlags.parse?_render parameter.flags
    rw [ofDraft?, toJson, Decode.slots?_ofJson (by simp [Entries.keys])]
    simp [Entries.value?_cons, Decode.required?, Decode.withDefault?, Decode.string?,
      Decode.choice?, Decode.text?, Draft.ofJson, hqualifier, hflags]
  numbers := by simp [toJson]
  depth := Json.depth_object_le (by simp [Json.depth])

theorem Enumerator.decoded (enumerator : Enumerator) : Decoded ofDraft? toJson 1 enumerator where
  decoded := by
    have hint : ∀ value : Int64,
        Decode.nullable? Decode.int64? (Draft.ofJson (.ofInt value.toInt)) = some (some value) := by
      intro value
      have hread := Json.signed?_ofInt_toInt value
      rw [Json.ofInt_toInt] at hread ⊢
      simp [Draft.ofJson, Decode.nullable?, Decode.int64?, Decode.value?, Draft.toJson?, hread]
    obtain ⟨name, value, description⟩ := enumerator
    rw [ofDraft?, toJson, Decode.slots?_ofJson (hasDistinctKeys_toJson _).keys]
    cases value with
    | none =>
        simp [Entries.value?_cons, Decode.required?, Decode.withDefault?, Decode.string?,
          Draft.ofJson]
    | some value =>
        simp [Entries.value?_cons, Decode.required?, Decode.withDefault?, Decode.string?, hint,
          Draft.ofJson]
  numbers := by cases hvalue : enumerator.value <;> simp [toJson, hvalue]
  depth := by
    refine Json.depth_object_le ?_
    cases enumerator.value with
    | none => simp [Json.depth]
    | some value =>
        simp [Json.depth, Json.ofInt_toInt]

theorem FieldDescriptor.decoded (field : FieldDescriptor) : Decoded ofDraft? toJson 1 field where
  decoded := by
    have hflags : Decode.withDefault? .empty (Decode.text? FieldFlags.parse?)
        (Option.map Draft.ofJson (if field.flags = .empty then none
          else some (.string field.flags.render))) = some field.flags :=
      Decode.withDefault?_unless id (FieldFlags.parse?_render field.flags)
    have hdescription : Decode.withDefault? "" Decode.string?
        (Option.map Draft.ofJson (if field.description = "" then none
          else some (.string field.description))) = some field.description :=
      Decode.withDefault?_unless id rfl
    rw [ofDraft?, toJson, Decode.slots?_ofJson field.hasDistinctKeys_toJson.keys]
    simp only [List.map_cons, Entries.value?_append, Entries.value?_entryUnless]
    simp [Entries.value?_cons, Decode.required?, Decode.string?, Draft.ofJson, hflags, hdescription]
  numbers := by
    rw [toJson, Json.numbersReadBack_object]
    simp only [List.forall_mem_append]
    exact ⟨⟨by simp, Entries.forall_entryUnless Json.NumbersReadBack (by simp) _ _⟩,
      Entries.forall_entryUnless Json.NumbersReadBack (by simp) _ _⟩
  depth := by
    refine Json.depth_object_le ?_
    simp only [List.forall_mem_append]
    exact ⟨⟨by simp [Json.depth],
      Entries.forall_entryUnless (fun value => value.depth ≤ 0) (by simp [Json.depth]) _ _⟩,
      Entries.forall_entryUnless (fun value => value.depth ≤ 0) (by simp [Json.depth]) _ _⟩

/-- The decoder of lists takes what was written of each element. -/
theorem Decoded.list {α : Type} {decode : Draft → Option α} {encode : α → Json} {bound : Nat}
    {list : List α} (h : ∀ a ∈ list, Decoded decode encode bound a) :
    Decoded (Decode.list? decode) (fun list => .array (list.map encode)) (bound + 1) list where
  decoded := Decode.list?_ofJson fun a ha => (h a ha).decoded
  numbers := by simpa using fun a ha => (h a ha).numbers
  depth := Json.depth_array_le (by simpa using fun a ha => (h a ha).depth)

/-- The decoder of maps takes what was written of each value. -/
theorem Decoded.map {α : Type} {decode : Draft → Option α} {encode : α → Json} {bound : Nat}
    {map : NameMap α} (h : ∀ name a, (name, a) ∈ map.entries → Decoded decode encode bound a) :
    Decoded (Decode.map? decode)
      (fun map => .object (map.mapValues fun _ a => encode a).entries) (bound + 1) map where
  decoded := Decode.map?_ofJson fun name a ha => (h name a ha).decoded
  numbers := by
    rw [Json.numbersReadBack_object]
    intro entry hentry
    obtain ⟨⟨name, a⟩, hmem, rfl⟩ := List.mem_map.mp hentry
    exact (h name a hmem).numbers
  depth := by
    refine Json.depth_object_le fun entry hentry => ?_
    obtain ⟨⟨name, a⟩, hmem, rfl⟩ := List.mem_map.mp hentry
    exact (h name a hmem).depth

/-- A list is left out only where it is empty. -/
theorem Decoded.listSlot {α : Type} [DecidableEq α] {decode : Draft → Option α} {encode : α → Json}
    {bound : Nat} {list : List α} (h : ∀ a ∈ list, Decoded decode encode bound a) :
    Decode.withDefault? [] (Decode.list? decode) (Option.map Draft.ofJson
      (if list = [] then none else some (.array (list.map encode)))) = some list :=
  Decode.withDefault?_unless id (Decoded.list h).decoded

theorem TypeDescriptor.decoded (descriptor : TypeDescriptor) :
    Decoded ofDraft? toJson 3 descriptor where
  decoded := by
    have hparameters := Decoded.listSlot fun parameter
      (_ : parameter ∈ descriptor.parameters) => parameter.decoded
    have hfields := Decoded.listSlot fun field (_ : field ∈ descriptor.fields) => field.decoded
    have henumerators := Decoded.listSlot fun enumerator
      (_ : enumerator ∈ descriptor.enumerators) => enumerator.decoded
    have hflags : Decode.withDefault? .empty (Decode.text? RecordFlags.parse?)
        (Option.map Draft.ofJson (if descriptor.flags = .empty then none
          else some (.string descriptor.flags.render))) = some descriptor.flags :=
      Decode.withDefault?_unless id (RecordFlags.parse?_render descriptor.flags)
    have hbase : Decode.withDefault? none (Decode.nullable? Decode.string?)
        (descriptor.base.map (Draft.ofJson ∘ Json.string)) = some descriptor.base := by
      cases descriptor.base <;> rfl
    have hslot : ∀ key, Entries.value? (descriptor.base.toList.map fun base =>
        ("base", Json.string base)) key =
          if key = "base" then descriptor.base.map Json.string else none := by
      intro key
      cases descriptor.base with
      | none => simp
      | some base => simp [Entries.value?_cons, eq_comm]
    rw [ofDraft?, toJson, Decode.slots?_ofJson descriptor.hasDistinctKeys_toJson.keys]
    simp only [List.map_cons, Entries.value?_append, Entries.value?_entryUnless, hslot]
    simp [hbase, hparameters, hflags, hfields, henumerators]
  numbers := by
    have hparameters := (Decoded.list fun parameter
      (_ : parameter ∈ descriptor.parameters) => parameter.decoded).numbers
    have hfields := (Decoded.list fun field (_ : field ∈ descriptor.fields) => field.decoded).numbers
    have henumerators := (Decoded.list fun enumerator
      (_ : enumerator ∈ descriptor.enumerators) => enumerator.decoded).numbers
    rw [toJson, Json.numbersReadBack_object]
    simp only [List.forall_mem_append]
    have hunless : ∀ {value : Json}, value.NumbersReadBack → ∀ omitted key,
        ∀ entry ∈ entryUnless omitted key value, entry.2.NumbersReadBack := fun h =>
      Entries.forall_entryUnless Json.NumbersReadBack h
    exact ⟨⟨⟨⟨by simp, hunless hparameters _ _⟩, hunless (by simp) _ _⟩, hunless hfields _ _⟩,
      hunless henumerators _ _⟩
  depth := by
    have hparameters := (Decoded.list fun parameter
      (_ : parameter ∈ descriptor.parameters) => parameter.decoded).depth
    have hfields := (Decoded.list fun field (_ : field ∈ descriptor.fields) => field.decoded).depth
    have henumerators := (Decoded.list fun enumerator
      (_ : enumerator ∈ descriptor.enumerators) => enumerator.decoded).depth
    refine Json.depth_object_le ?_
    simp only [List.forall_mem_append]
    have hunless : ∀ {value : Json}, value.depth ≤ 2 → ∀ omitted key,
        ∀ entry ∈ entryUnless omitted key value, entry.2.depth ≤ 2 := fun h =>
      Entries.forall_entryUnless (fun value => value.depth ≤ 2) h
    exact ⟨⟨⟨⟨by simp [Json.depth], hunless hparameters _ _⟩, hunless (by simp [Json.depth]) _ _⟩,
      hunless hfields _ _⟩, hunless henumerators _ _⟩

/-! ## The whole document -/

theorem TypeVariant.decoded (variant : TypeVariant) :
    Decoded (Decode.choice? name all) (fun variant => .string variant.name) 0 variant where
  decoded := by cases variant <;> rfl
  numbers := Json.numbersReadBack_string _
  depth := Nat.le_refl 0

namespace SchemaDocument

theorem decoded_order (order : List String) :
    Decoded (Decode.list? Decode.string?) (fun order => .array (order.map Json.string)) 1 order :=
  Decoded.list fun name _ => ⟨rfl, Json.numbersReadBack_string name, Nat.le_refl 0⟩

theorem decoded_variants (variants : NameMap TypeVariant) :
    Decoded (Decode.map? (Decode.choice? TypeVariant.name TypeVariant.all))
      (fun map => .object (map.mapValues fun _ variant => .string variant.name).entries) 1
        variants :=
  Decoded.map fun _ variant _ => variant.decoded

theorem decoded_descriptors (descriptors : NameMap TypeDescriptor) :
    Decoded (Decode.map? TypeDescriptor.ofDraft?)
      (fun map => .object (map.mapValues fun _ descriptor => descriptor.toJson).entries) 4
        descriptors :=
  Decoded.map fun _ descriptor _ => descriptor.decoded

theorem unsigned32?_schemaVersion :
    Decode.unsigned32? (Draft.ofJson (.ofNat schemaVersion)) = some schemaVersion := by
  decide

variable (document : SchemaDocument)

/-- The document is decoded from its parts, whatever spells the version.  How a number is made must
not be unfolded for one that is not known. -/
theorem ofDraft?_parts {number : Json}
    (hread : Decode.unsigned32? (Draft.ofJson number) = some document.version) :
    ofDraft? (Draft.ofJson (.object [("version", number),
      ("types",
        .object (document.variants.mapValues fun _ variant => .string variant.name).entries),
      ("typedesc", .object (document.descriptors.mapValues fun _ d => d.toJson).entries),
      ("declaration_order", .array (document.order.map .string))])) = some document := by
  have hvariants := (decoded_variants document.variants).decoded
  have hdescriptors := (decoded_descriptors document.descriptors).decoded
  have horder := (decoded_order document.order).decoded
  rw [ofDraft?, Decode.slots?_ofJson (by simp [Entries.keys])]
  simp only [List.map_cons, List.map_nil, Entries.value?_cons, String.reduceEq, if_true, if_false,
    Option.map_some, Option.bind_eq_bind, Option.bind_some, Decode.required?, Decode.withDefault?,
    hread, hvariants, hdescriptors, horder]
  rfl

theorem ofDraft?_toJson (hversion : document.version = schemaVersion) :
    ofDraft? (Draft.ofJson document.toJson) = some document := by
  refine document.ofDraft?_parts ?_
  rw [hversion]
  exact unsigned32?_schemaVersion

theorem numbersReadBack_toJson : document.toJson.NumbersReadBack := by
  rw [toJson, Json.numbersReadBack_object]
  simp only [List.forall_mem_cons]
  exact ⟨Json.numbersReadBack_ofNat _, (decoded_variants document.variants).numbers,
    (decoded_descriptors document.descriptors).numbers, (decoded_order document.order).numbers,
    by simp⟩

theorem depth_toJson_le : document.toJson.depth ≤ 5 := by
  have hversion : (Json.ofNat document.version).depth ≤ 4 := by
    unfold Json.ofNat Json.ofInt
    split <;> exact Nat.zero_le _
  refine Json.depth_object_le ?_
  simp only [List.forall_mem_cons]
  exact ⟨hversion, Nat.le_trans (decoded_variants document.variants).depth (by decide),
    (decoded_descriptors document.descriptors).depth,
    Nat.le_trans (decoded_order document.order).depth (by decide), by simp⟩

/-- A schema document is read back from its text. -/
theorem parse?_render (hversion : document.version = schemaVersion) :
    parse? document.render = some document := by
  have hdepth : document.toJson.depth ≤ Json.documentDepth :=
    Nat.le_trans document.depth_toJson_le (by decide)
  rw [parse?, render, Json.read?_renderIndented document.numbersReadBack_toJson hdepth,
    Option.bind_some, document.ofDraft?_toJson hversion]

end SchemaDocument
end LiveSchema
