import LiveSchema.Proofs.DefaultSizes
import LiveSchema.Proofs.Value.Entries

/-!
# Objects that are fitted to their record

Fitting takes the fields of a record out of an object one after the other, and each time the last entry
that is left moves into the gap.  The order of what is left over therefore changes on the way, but it is
always made of the entries that were not taken.
-/

namespace LiveSchema
namespace Registry

variable {registry : Registry} {record : TypeHandle} {entries : Entries}

/-- The values under the names of fields make up an object with exactly these keys. -/
theorem entriesOf_value? {fields : List Field} {valueOf : Field → Json}
    (hkeys : Entries.keys entries = fields.map Field.name)
    (hnames : (fields.map Field.name).Nodup) :
    (Field.entriesOf fields fun field =>
      (Entries.value? entries field.name).getD (valueOf field)) = entries := by
  have hnodup : (Entries.keys entries).Nodup := hkeys ▸ hnames
  have hpresent : (Field.entriesOf fields fun field =>
      (Entries.value? entries field.name).getD (valueOf field)) =
        (fields.map Field.name).map fun key => (key, (Entries.value? entries key).getD .null) := by
    rw [Field.entriesOf, List.map_map]
    refine List.map_congr_left fun field hfield => ?_
    obtain ⟨value, hvalue⟩ := Entries.exists_value?_iff.mpr
      (hkeys ▸ List.mem_map_of_mem (f := Field.name) hfield)
    simp [hvalue]
  have hown : ∀ entry ∈ entries, (entry.1, (Entries.value? entries entry.1).getD .null) = entry := by
    intro entry hentry
    rw [Entries.value?_of_mem hnodup hentry, Option.getD_some]
  rw [hpresent, ← hkeys, Entries.keys, List.map_map]
  exact (List.map_congr_left hown).trans (List.map_id _)

/-- An object that has exactly the fields of its record, in order, is left as it is. -/
theorem conform_of_keys_eq (hkeys : Entries.keys entries = registry.allFieldNames record)
    (hnames : (registry.allFieldNames record).Nodup) :
    registry.conform record entries = (entries, []) := by
  have hnodup : (Entries.keys entries).Nodup := hkeys ▸ hnames
  have hobject : (registry.conform record entries).1 = entries := by
    rw [conform_fst hnodup hnames]
    exact entriesOf_value? hkeys hnames
  have hnone : (entries.filter fun entry => entry.1 ∉ registry.allFieldNames record) = [] := by
    refine List.filter_eq_nil_iff.mpr fun entry hentry => ?_
    have hfield : entry.1 ∈ registry.allFieldNames record :=
      hkeys ▸ List.mem_map_of_mem (f := Prod.fst) hentry
    simpa using hfield
  have hremoved : (registry.conform record entries).2 = [] :=
    List.perm_nil.mp (hnone ▸ conform_snd hnodup)
  exact Prod.ext hobject hremoved

/-- Where no default is built for itself and the effective fields of a record have names of their own,
an object that is fitted to the record has exactly these names as its keys, in the order of the fields.
A field that was there keeps its value, and any other one gets the default of its type, which it has.
What had to go are exactly the entries under other keys, each once.  Fitting the object again changes
nothing, and nothing has to go. -/
theorem conform_of_not_circular (hcircles : ∀ record, ¬ registry.Circular record)
    (hnames : (registry.allFieldNames record).Nodup) (hentries : (Entries.keys entries).Nodup) :
    ∃ object removed, registry.conform record entries = (object, removed) ∧
      Entries.keys object = registry.allFieldNames record ∧
      (∀ field ∈ registry.allFields record,
        (∀ value, Entries.value? entries field.name = some value →
          Entries.value? object field.name = some value) ∧
        (Entries.value? entries field.name = none →
          ∃ value, registry.default? field.type = some value ∧
            Entries.value? object field.name = some value)) ∧
      removed.Perm (entries.filter fun entry => entry.1 ∉ registry.allFieldNames record) ∧
      registry.conform record object = (object, []) := by
  have hkeys : Entries.keys (registry.conform record entries).1 = registry.allFieldNames record := by
    rw [conform_fst hentries hnames, Field.keys_entriesOf, allFieldNames]
  refine ⟨(registry.conform record entries).1, (registry.conform record entries).2, rfl, hkeys,
    fun field hfield => ?_, conform_snd hentries, conform_of_keys_eq hkeys hnames⟩
  have hheld : Entries.value? (registry.conform record entries).1 field.name =
      some ((Entries.value? entries field.name).getD (registry.defaultValue field.type)) := by
    rw [conform_fst hentries hnames]
    exact Field.value?_entriesOf hnames hfield
  constructor
  · intro value hvalue
    rw [hheld, hvalue, Option.getD_some]
  · intro hmissing
    obtain ⟨value, hvalue⟩ := exists_default?_of_not_circular hcircles field.type
    refine ⟨value, hvalue, ?_⟩
    rw [hheld, hmissing, Option.getD_none, defaultValue, hvalue, Option.getD_some]

/-- The registry of a struct with two fields that hold nothing. -/
def twoFields : Registry :=
  singleField.modifyFields ⟨37⟩ fun fields => fields ++ [⟨"field2", .plain void, .empty, ""⟩]

theorem wellFormed_twoFields : twoFields.WellFormed := by
  have hfresh : Database.Reachable id Database.inMemory := .fresh
  exact (((hfresh.step ⟨0, 0⟩ NameMap.empty .addStruct).step ⟨0, 0⟩ NameMap.empty
    (.addField ⟨37⟩)).step ⟨0, 0⟩ NameMap.empty (.addField ⟨37⟩)).wellFormed

/-- One of two fields is missing, and two other keys are left over. -/
theorem conform_of_not_circular_twoFields :
    let entries : Entries := [("field2", .bool true), ("k", .bool false), ("m", .null)]
    (∀ record, ¬ twoFields.Circular record) ∧ (Entries.keys entries).Nodup ∧
      twoFields.allFieldNames ⟨37⟩ = ["field1", "field2"] ∧
      ∃ object removed, twoFields.conform ⟨37⟩ entries = (object, removed) ∧
        Entries.keys object = ["field1", "field2"] ∧
        (∃ value, twoFields.default? (.plain void) = some value ∧
          Entries.value? object "field1" = some value) ∧
        Entries.value? object "field2" = some (.bool true) ∧
        removed.Perm [("k", .bool false), ("m", .null)] ∧
        twoFields.conform ⟨37⟩ object = (object, []) := by
  intro entries
  have hcircles := not_circular_of_acyclic wellFormed_twoFields.containment
  have hnames : twoFields.allFieldNames ⟨37⟩ = ["field1", "field2"] := by decide +kernel
  have hfields : twoFields.allFields ⟨37⟩ =
      [⟨"field1", .plain void, .empty, ""⟩, ⟨"field2", .plain void, .empty, ""⟩] := by
    decide
  have hentries : (Entries.keys entries).Nodup := by decide
  obtain ⟨object, removed, hconform, hkeys, hvalues, hremoved, hagain⟩ :=
    conform_of_not_circular hcircles (wellFormed_twoFields.names ⟨37⟩) hentries
  rw [hnames] at hkeys hremoved
  rw [hfields] at hvalues
  obtain ⟨hfirst, hsecond⟩ := List.forall_mem_cons.mp hvalues
  exact ⟨hcircles, hentries, hnames, object, removed, hconform, hkeys, hfirst.2 rfl,
    (List.forall_mem_singleton.mp hsecond).1 _ rfl, hremoved, hagain⟩

end Registry
end LiveSchema
