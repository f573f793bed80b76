import LiveSchema.Proofs.Value.Leaves

/-!
# Values that are changed from the inside out

A migration goes from the outside in, under the types as they are after a change of the schema.  What
it makes of a value is told more simply from the inside out and under the types of before: each object
gets other keys only after everything inside it has been changed.
-/

namespace LiveSchema

/-! ## Objects with other keys -/

/-- The entries with their keys exchanged, and further ones behind them. -/
def Entries.reshape (ρ : String → String) (added entries : Entries) : Entries :=
  entries.map (fun entry => (ρ entry.1, entry.2)) ++ added

/-- The object with its keys exchanged, and further ones behind them; other values stay as they are. -/
def Json.reshape (ρ : String → String) (added : Entries) : Json → Json
  | .object entries => .object (Entries.reshape ρ added entries)
  | value => value

namespace Entries

variable {ρ : String → String} {added entries : Entries} {key : String} {value : Json}

theorem reshape_id (entries : Entries) : reshape id [] entries = entries := by
  simp [reshape]

theorem keys_reshape (ρ : String → String) (added entries : Entries) :
    keys (reshape ρ added entries) = (keys entries).map ρ ++ keys added := by
  simp [reshape, keys]

/-- What lay under a key lies under the new one. -/
theorem value?_reshape (hnodup : (keys (reshape ρ added entries)).Nodup)
    (h : value? entries key = some value) :
    value? (reshape ρ added entries) (ρ key) = some value :=
  value?_of_mem hnodup
    (List.mem_append_left _ (List.mem_map_of_mem (f := fun entry : String × Json =>
      (ρ entry.1, entry.2)) (mem_of_value? h)))

theorem value?_reshape_added (hnodup : (keys (reshape ρ added entries)).Nodup)
    (h : (key, value) ∈ added) : value? (reshape ρ added entries) key = some value :=
  value?_of_mem hnodup (List.mem_append_right _ h)

end Entries

theorem Json.reshape_id (value : Json) : value.reshape id [] = value := by
  cases value with
  | object entries => exact congrArg Json.object (Entries.reshape_id entries)
  | _ => rfl

/-- The field with its name exchanged. -/
def Field.rekey (ρ : String → String) (field : Field) : Field :=
  { field with name := ρ field.name }

theorem Field.rekey_id : Field.rekey id = id :=
  rfl

/-- Where names are distinct, the name of a field is not one of those before or behind it. -/
theorem Field.names_beside {above below : List Field} {field : Field}
    (h : ((above ++ field :: below).map Field.name).Nodup) :
    field.name ∉ above.map Field.name ∧ field.name ∉ below.map Field.name := by
  rw [List.map_append, List.map_cons, List.nodup_middle, List.nodup_cons, List.mem_append,
    not_or] at h
  exact h.1

/-- Fields of other names stay as they are. -/
theorem Field.map_rekey_of_not_mem {fields : List Field} {source target : String}
    (h : source ∉ fields.map Field.name) :
    fields.map (Field.rekey (Entries.renamed source target)) = fields := by
  refine (List.map_congr_left fun field hfield => ?_).trans (List.map_id fields)
  have hne : field.name ≠ source := fun hsame => h (hsame ▸ List.mem_map_of_mem hfield)
  rw [rekey, Entries.renamed, if_neg hne]
  rfl

/-! ## Fields of objects with other keys -/

namespace Parts

variable {strict : Prop} {f g : TypeReference → Json → Json} {ρ : String → String}
  {declared declaredAfter new : List Field} {entries answered : Entries}

/-- The keys of an object that got other keys are the names of the fields that belong to them. -/
theorem keys_reshape_perm {valueOf : Field → Json}
    (hfields : declaredAfter.Perm (declared.map (Field.rekey ρ) ++ new))
    (hentries : (Entries.keys entries).Perm (declared.map Field.name)) :
    (Entries.keys (Entries.reshape ρ (Field.entriesOf new valueOf) entries)).Perm
      (declaredAfter.map Field.name) := by
  have hmapped := hentries.map ρ
  rw [List.map_map] at hmapped
  rw [Entries.keys_reshape, Field.keys_entriesOf]
  refine (hmapped.append_right _).trans (List.Perm.trans ?_ (hfields.map Field.name).symm)
  rw [List.map_append, List.map_map]
  exact .refl _

/-- If an object has got other keys, putting answers in the place of its fields is the same as putting
them there before. -/
theorem like_mapFields_reshape (hnames : (declared.map Field.name).Nodup)
    (hnamesAfter : (declaredAfter.map Field.name).Nodup)
    (hfields : declaredAfter.Perm (declared.map (Field.rekey ρ) ++ new))
    (hentries : (Entries.keys entries).Perm (declared.map Field.name))
    (hkeys : SameItems strict (Entries.keys answered)
      (Entries.keys (Entries.reshape ρ (Field.entriesOf new fun _ => .null) entries)))
    (hvalues : ∀ key, Entries.value? answered key =
      Entries.value? (Entries.reshape ρ (Field.entriesOf new fun _ => .null) entries) key)
    (hnew : ∀ field ∈ new, f field.type .null = .null)
    (hlike : ∀ field ∈ declared, ∀ held, Entries.value? entries field.name = some held →
      Json.Like strict (f field.type held) (g field.type held)) :
    Json.Like strict (.object (mapFields f answered declaredAfter))
      (.object (Entries.reshape ρ (Field.entriesOf new fun _ => .null)
        (mapFields g entries declared))) := by
  have hsameKeys : Entries.keys (Entries.reshape ρ (Field.entriesOf new fun _ => .null)
        (mapFields g entries declared)) =
      Entries.keys (Entries.reshape ρ (Field.entriesOf new fun _ => .null) entries) := by
    rw [Entries.keys_reshape, Entries.keys_reshape, keys_mapFields]
  have hperm : (Entries.keys (Entries.reshape ρ (Field.entriesOf new fun _ => .null)
      entries)).Perm (declaredAfter.map Field.name) := keys_reshape_perm hfields hentries
  have hnodup := hperm.nodup_iff.mpr hnamesAfter
  refine .object ?_ ?_ fun key a b ha hb => ?_
  · rw [keys_mapFields]
    exact hkeys.perm.nodup_iff.mpr hnodup
  · rwa [keys_mapFields, hsameKeys]
  · -- the key belongs to a field, and this field was there before or is new
    have hkey : key ∈ declaredAfter.map Field.name := by
      have hmem := Entries.exists_value?_iff.mp ⟨b, hb⟩
      rw [hsameKeys] at hmem
      exact hperm.mem_iff.mp hmem
    obtain ⟨field, hfield, rfl⟩ := List.mem_map.mp hkey
    rw [value?_mapFields hnamesAfter hfield, hvalues] at ha
    rcases List.mem_append.mp (hfields.mem_iff.mp hfield) with hkept | hadded
    · obtain ⟨old, hold, rfl⟩ := List.mem_map.mp hkept
      obtain ⟨held, hheld⟩ := Entries.exists_value?_iff.mpr
        (hentries.mem_iff.mpr (List.mem_map_of_mem (f := Field.name) hold))
      have hanswer : Entries.value? (mapFields g entries declared) old.name =
          some (g old.type held) :=
        (value?_mapFields hnames hold).trans (congrArg _ hheld)
      rw [Field.rekey, Entries.value?_reshape hnodup hheld] at ha
      rw [Field.rekey, Entries.value?_reshape (hsameKeys ▸ hnodup) hanswer] at hb
      cases ha
      cases hb
      exact hlike old hold held hheld
    · have hmem : (field.name, Json.null) ∈ Field.entriesOf new fun _ => .null :=
        List.mem_map.mpr ⟨field, hadded, rfl⟩
      rw [Entries.value?_reshape_added hnodup hmem, Option.map_some, hnew field hadded] at ha
      rw [Entries.value?_reshape_added (hsameKeys ▸ hnodup) hmem] at hb
      cases ha
      cases hb
      exact .refl _

/-- Alike answers in the place of the fields make alike objects. -/
theorem like_mapFields (hnames : (declared.map Field.name).Nodup)
    (hentries : (Entries.keys entries).Perm (declared.map Field.name))
    (hlike : ∀ field ∈ declared, ∀ held, Entries.value? entries field.name = some held →
      Json.Like strict (f field.type held) (g field.type held)) :
    Json.Like strict (.object (mapFields f entries declared))
      (.object (mapFields g entries declared)) := by
  have hsame : ∀ entries : Entries,
      Entries.reshape id (Field.entriesOf [] fun _ => .null) entries = entries :=
    Entries.reshape_id
  have hfields : declared.Perm (declared.map (Field.rekey id) ++ []) := by
    rw [Field.rekey_id, List.map_id, List.append_nil]
  have hlikes : Json.Like strict (.object (mapFields f entries declared))
      (.object (Entries.reshape id (Field.entriesOf [] fun _ => .null)
        (mapFields g entries declared))) :=
    like_mapFields_reshape hnames hnames hfields hentries (.of_eq (by rw [hsame]))
      (fun _ => by rw [hsame]) (fun _ hfield => absurd hfield List.not_mem_nil) hlike
  rwa [hsame] at hlikes

end Parts

/-! ## Rewriting -/

namespace Registry

variable {registry : Registry} {reference : TypeReference} {value : Json}
  {f : TypeReference → Json → Json}

/-- What becomes of a value if first everything inside it is rewritten and then the value itself, each
as the type tells under which it is stored. -/
def rewrite (registry : Registry) (f : TypeReference → Json → Json) (reference : TypeReference)
    (value : Json) : Json :=
  f reference <| (registry.childValues reference value).attach.foldl
    (fun changed ⟨child, _⟩ =>
      child.segment.modify (fun _ => registry.rewrite f child.type child.value) changed) value
termination_by (sizeOf value, sizeOf reference)
decreasing_by exact child_smaller ‹_›

theorem rewrite_eq_changeEach (f : TypeReference → Json → Json) (reference : TypeReference)
    (value : Json) :
    registry.rewrite f reference value = f reference
      (Child.changeEach (fun child _ => registry.rewrite f child.type child.value)
        (registry.childValues reference value) value) := by
  rw [rewrite, List.foldl_attach (f := fun changed (child : Child) =>
    child.segment.modify (fun _ => registry.rewrite f child.type child.value) changed)]
  rfl

theorem rewrite_eq (hnames : (registry.allFieldNames reference.handle).Nodup) :
    registry.rewrite f reference value =
      f reference ((registry.parts reference value).mapChildren (registry.rewrite f) value) := by
  have heach : Child.changeEach (fun child _ => registry.rewrite f child.type child.value)
        (registry.childValues reference value) value =
      (registry.parts reference value).mapChildren (registry.rewrite f) value :=
    changeEach_childValues_of_names hnames fun _ _ => rfl
  rw [rewrite_eq_changeEach, heach]

/-- Rewriting with a function that changes nothing changes nothing. -/
theorem rewrite_of_idle (hnames : ∀ handle, (registry.allFieldNames handle).Nodup)
    (hidle : ∀ type inner, f type inner = inner) (reference : TypeReference) (value : Json) :
    registry.rewrite f reference value = value := by
  induction reference, value using registry.child_induction with
  | step reference value ih =>
      rw [rewrite_eq (hnames _), hidle, Parts.mapChildren_eq_whole ih, whole_parts]

end Registry
end LiveSchema
