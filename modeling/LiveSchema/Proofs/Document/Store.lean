import LiveSchema.Document.Store
import LiveSchema.Ledger.Record
import LiveSchema.Proofs.Document.Decode

/-!
# Reading back stores and records of the change log

The written form of a store document, and that of a record of the change log, is read back as what it
was written from, if the values in it can be read back.
-/

namespace LiveSchema

namespace StoreDocument

variable {document : StoreDocument}

/-- What is asked of the values in a document. -/
structure Readable (document : StoreDocument) : Prop where
  keys : ∀ name root, (name, root) ∈ document.roots.entries → root.value.HasDistinctKeys
  numbers : ∀ name root, (name, root) ∈ document.roots.entries → root.value.NumbersReadBack
  depth : document.toJson.depth ≤ Json.documentDepth

theorem ofDraft?_toJson_root {root : RootDocument} (h : root.value.HasDistinctKeys) :
    RootDocument.ofDraft? (Draft.ofJson root.toJson) = some root := by
  have hvalue := Draft.toJson?_ofJson h
  rw [RootDocument.ofDraft?, RootDocument.toJson, Decode.slots?_ofJson (by simp [Entries.keys])]
  simp [Entries.value?_cons, Decode.required?, Decode.string?, Draft.ofJson, hvalue]

theorem Readable.ofDraft?_toJson (h : document.Readable) :
    ofDraft? (Draft.ofJson document.toJson) = some document := by
  have hroots := Decode.map?_ofJson fun name root hroot =>
    ofDraft?_toJson_root (h.keys name root hroot)
  rw [ofDraft?, toJson, Decode.slots?_ofJson (by simp [Entries.keys])]
  simp only [List.map_cons, List.map_nil, Entries.value?_cons, String.reduceEq, if_true, if_false,
    Option.map_some, Option.bind_eq_bind, Option.bind_some, Decode.required?, hroots]
  rfl

theorem Readable.numbersReadBack_toJson (h : document.Readable) :
    document.toJson.NumbersReadBack := by
  have hroots : ∀ entry ∈ (document.roots.mapValues fun _ root => root.toJson).entries,
      entry.2.NumbersReadBack := by
    intro entry hentry
    obtain ⟨⟨name, root⟩, hmem, rfl⟩ := List.mem_map.mp hentry
    show root.toJson.NumbersReadBack
    rw [RootDocument.toJson, Json.numbersReadBack_object]
    simp only [List.forall_mem_cons]
    exact ⟨Json.numbersReadBack_string _, h.numbers name root hmem, by simp⟩
  rw [toJson, Json.numbersReadBack_object]
  simp only [List.forall_mem_cons]
  exact ⟨Json.numbersReadBack_string _, Json.numbersReadBack_string _,
    Json.numbersReadBack_object.mpr hroots, by simp⟩

/-- A store document is read back from its text. -/
theorem Readable.parse?_render (h : document.Readable) : parse? document.render = some document := by
  rw [parse?, render, Json.read?_renderIndented h.numbersReadBack_toJson h.depth, Option.bind_some,
    h.ofDraft?_toJson]

end StoreDocument

/-! ## Records of the change log -/

namespace AuditRecord

variable {record : AuditRecord}

/-- What is asked of a record: its parameters and its time can be read back, and it does not nest too
deeply. -/
structure Readable (record : AuditRecord) : Prop where
  keys : record.params.HasDistinctKeys
  numbers : record.params.NumbersReadBack
  time : Timestamp.parse? (record.time.render "Z") = some record.time
  depth : record.toJson.depth ≤ Json.documentDepth

theorem Readable.ofDraft?_toJson (h : record.Readable) :
    ofDraft? (Draft.ofJson record.toJson) = some record := by
  obtain ⟨action, params, time, previous, hash⟩ := record
  have hparams := Draft.toJson?_ofJson h.keys
  have htime := h.time
  rw [ofDraft?, toJson, Decode.slots?_ofJson]
  · cases previous with
    | none =>
        simp [Entries.value?_cons, Decode.required?, Decode.withDefault?, Decode.string?,
          Decode.text?, Draft.ofJson, hparams, htime]
    | some previous =>
        simp [Entries.value?_cons, Decode.required?, Decode.withDefault?, Decode.nullable?,
          Decode.string?, Decode.text?, Draft.ofJson, hparams, htime]
  · cases previous <;> simp [Entries.keys]

theorem Readable.numbersReadBack_toJson (h : record.Readable) : record.toJson.NumbersReadBack := by
  rw [toJson, Json.numbersReadBack_object]
  simp only [List.forall_mem_append, List.forall_mem_cons]
  refine ⟨⟨⟨Json.numbersReadBack_string _, h.numbers, Json.numbersReadBack_string _, by simp⟩, ?_⟩,
    Json.numbersReadBack_string _, by simp⟩
  intro entry hentry
  obtain ⟨hash, -, rfl⟩ := List.mem_map.mp hentry
  exact Json.numbersReadBack_string hash

/-- A record is read back from its line. -/
theorem Readable.parse?_render (h : record.Readable) : parse? record.render = some record := by
  rw [parse?, render, Json.read?_render h.numbersReadBack_toJson h.depth, Option.bind_some,
    h.ofDraft?_toJson]

end AuditRecord
end LiveSchema
