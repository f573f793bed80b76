import LiveSchema.Proofs.Json.Inner
import LiveSchema.Proofs.Schema.Legal
import LiveSchema.Proofs.Schema.Lineage
import LiveSchema.Proofs.Value.Alike
import LiveSchema.Proofs.Value.Keys

/-!
# Depths of values and types

A step into a value makes it less deep, except at a pointer, where the type becomes less deep instead.
This bounds how far any walk into a value can go.  No default is deeper than the registry allows for,
since no record is met within itself.
-/

namespace LiveSchema
namespace Registry

theorem depth_lt_of_mem_array {items : List Json} {item : Json} (h : item ∈ items) :
    item.depth < (Json.array items).depth :=
  Json.depth_lt_of_mem_inner h

theorem depth_lt_of_value? {entries : Entries} {name : String} {inner : Json}
    (h : Entries.value? entries name = some inner) :
    inner.depth < (Json.object entries).depth :=
  Json.depth_lt_of_mem_inner (List.mem_map_of_mem (Entries.mem_of_value? h))

end Registry

theorem TypeReference.depth_pos (reference : TypeReference) : 0 < reference.depth := by
  obtain ⟨handle, arguments⟩ := reference
  exact Nat.succ_pos _

theorem TypeReference.depth_lt_of_mem {reference inner : TypeReference}
    (h : TemplateArgument.type inner ∈ reference.arguments) : inner.depth < reference.depth := by
  obtain ⟨handle, arguments⟩ := reference
  rw [depth]
  refine Nat.lt_succ_of_le ?_
  simp only at h
  induction arguments with
  | nil => exact absurd h List.not_mem_nil
  | cons argument rest ih =>
      rcases List.mem_cons.mp h with rfl | h
      · rw [TemplateArgument.maxDepth]
        exact Nat.le_max_left _ _
      · have hrest := ih h
        cases argument with
        | size count => rwa [TemplateArgument.maxDepth]
        | type first =>
            rw [TemplateArgument.maxDepth]
            exact Nat.le_trans hrest (Nat.le_max_right _ _)

namespace Registry

variable {registry : Registry} {reference : TypeReference} {value : Json}

theorem depth_le_nesting {handle : TypeHandle} {field : Field}
    (h : field ∈ registry.ownFields handle) : field.type.depth ≤ registry.nesting := by
  have hmax : ∀ (list : List Nat) (start : Nat),
      start ≤ list.foldl max start ∧ ∀ n ∈ list, n ≤ list.foldl max start := by
    intro list
    induction list with
    | nil => simp
    | cons first rest ih =>
        intro start
        obtain ⟨hstart, hrest⟩ := ih (max start first)
        refine ⟨by rw [List.foldl_cons]; omega, fun n hn => ?_⟩
        rw [List.foldl_cons]
        rcases List.mem_cons.mp hn with rfl | hn
        · omega
        · exact hrest n hn
  obtain ⟨d, hd, -⟩ := get?_of_mem_ownFields h
  refine (hmax _ 0).2 _ (List.mem_flatMap.mpr ⟨handle, ?_, List.mem_map_of_mem h⟩)
  refine List.mem_filter.mpr ⟨List.mem_map.mpr ⟨handle.index, ?_, rfl⟩, isLive_iff.mpr ⟨d, hd⟩⟩
  exact List.mem_range.mpr (index_lt_of_get? hd)

theorem depth_le_nesting_of_mem_allFields {handle : TypeHandle} {field : Field}
    (h : field ∈ registry.allFields handle) : field.type.depth ≤ registry.nesting := by
  rw [allFields_eq_flatMap, List.mem_flatMap] at h
  obtain ⟨owner, -, hfield⟩ := h
  exact depth_le_nesting hfield

/-- A value inside another one is less deep, or it is the target of a pointer and its type is.  Its type
is an argument of the outer type or the type of a field. -/
theorem Inside.depth {type : TypeReference} {inner : Json}
    (h : registry.Inside reference value type inner) :
    (inner.depth < value.depth ∨ inner = value ∧ type.depth < reference.depth) ∧
      (type.depth < reference.depth ∨ type.depth ≤ registry.nesting) := by
  obtain ⟨child, hchild, rfl, rfl⟩ := h
  have hargument : ∀ {index : Nat} {argument : TypeReference},
      reference.typeArgument? index = some argument → argument.depth < reference.depth :=
    fun h => TypeReference.depth_lt_of_mem (TypeReference.mem_of_typeArgument? h)
  cases hasChild_of_mem_childValues hchild with
  | field hfield hheld =>
      exact ⟨Or.inl (depth_lt_of_value? hheld), Or.inr (depth_le_nesting_of_mem_allFields hfield)⟩
  | item helement hitem =>
      exact ⟨Or.inl (depth_lt_of_mem_array (List.mem_of_getElem? hitem)),
        Or.inl (hargument helement)⟩
  | payload halternative =>
      obtain ⟨index, -, halternative⟩ := Option.bind_eq_some_iff.mp halternative
      exact ⟨Or.inl (depth_lt_of_mem_array (by simp)), Or.inl (hargument halternative)⟩
  | pointee htarget hpresent =>
      exact ⟨Or.inr ⟨rfl, hargument htarget⟩, Or.inl (hargument htarget)⟩
  | mapKey htype hpair | mapValue htype hpair =>
      have houter := depth_lt_of_mem_array (List.mem_of_getElem? hpair)
      exact ⟨Or.inl (Nat.lt_trans (depth_lt_of_mem_array (by simp)) houter),
        Or.inl (hargument htype)⟩

/-! ## Defaults -/

theorem depth_ofInt (i : Int) : (Json.ofInt i).depth = 0 := by
  unfold Json.ofInt
  split <;> rfl

theorem unvisited_le_length (all visited : List TypeHandle) : unvisited all visited ≤ all.length := by
  induction all with
  | nil => exact Nat.le_refl 0
  | cons first rest ih =>
      rw [unvisited, List.length_cons]
      split <;> omega

theorem depth_simpleDefault_le (builtin : Builtin) : (simpleDefault builtin).depth ≤ 1 := by
  cases builtin with
  | vector component size =>
      refine Json.depth_array_le fun item hitem => ?_
      rw [List.eq_of_mem_replicate hitem]
      cases component <;> exact Nat.le_refl 0
  | _ => simp [simpleDefault, Json.depth, Json.depthOfItems, Json.ofFloat, Json.ofNat, depth_ofInt]

theorem depth_defaultEntries?_le {within : List TypeHandle} {bound : Nat} {fields : List Field}
    {done entries : Entries}
    (hfields : ∀ field ∈ fields, ∀ held, registry.defaultWithin? within field.type = some held →
      held.depth ≤ bound)
    (hdone : ∀ entry ∈ done, entry.2.depth ≤ bound)
    (h : registry.defaultEntries? within done fields = some entries) :
    ∀ entry ∈ entries, entry.2.depth ≤ bound := by
  induction fields generalizing done with
  | nil =>
      rw [defaultEntries?_nil] at h
      exact Option.some.inj h ▸ hdone
  | cons field rest ih =>
      rw [defaultEntries?_cons] at h
      obtain ⟨held, hheld, hrest⟩ := Option.bind_eq_some_iff.mp h
      obtain ⟨hfield, hothers⟩ := List.forall_mem_cons.mp hfields
      refine ih hothers (fun entry hentry => ?_) hrest
      rcases Entries.mem_assign hentry with rfl | hentry
      · exact hfield held hheld
      · exact hdone entry hentry

/-- How deep a default can be inside records that are not complete yet: every further record makes it
deeper by itself and by the type of a field. -/
def defaultRoom (registry : Registry) (within : List TypeHandle) : Nat :=
  unvisited registry.handles within * (registry.nesting + 1)

theorem depth_record_le {within : List TypeHandle} {definition : TypeDefinition} {record : Record}
    (hfound : registry.get? reference.handle = some definition)
    (hbody : definition.body = .record record)
    (h : registry.defaultWithin? within reference = some value)
    (hfields : reference.handle ∉ within → ∀ field ∈ registry.allFields reference.handle, ∀ held,
      registry.defaultWithin? (reference.handle :: within) field.type = some held →
        held.depth ≤ field.type.depth + registry.defaultRoom (reference.handle :: within)) :
    value.depth ≤ registry.defaultRoom within := by
  rw [defaultWithin?_record hfound hbody] at h
  split at h
  · exact absurd h (by simp)
  next hfresh =>
      obtain ⟨entries, hentries, rfl⟩ := Option.map_eq_some_iff.mp h
      have hvalues : ∀ entry ∈ entries, entry.2.depth ≤
          registry.nesting + registry.defaultRoom (reference.handle :: within) := by
        refine depth_defaultEntries?_le (fun field hfield held hheld => ?_) (by simp) hentries
        have htype := depth_le_nesting_of_mem_allFields hfield
        have hdepth := hfields hfresh field hfield held hheld
        omega
      have hobject := Json.depth_object_le hvalues
      have hless := unvisited_cons_lt (mem_handles.mpr (isLive_of_get? hfound)) hfresh
      have hroom := Nat.mul_le_mul_right (registry.nesting + 1) (Nat.succ_le_of_lt hless)
      rw [Nat.succ_mul] at hroom
      simp only [defaultRoom] at hobject ⊢
      omega

theorem depth_defaultArgument?_lt {within : List TypeHandle} {room : Nat} {held : Json}
    (hinner : ∀ argument, TemplateArgument.type argument ∈ reference.arguments → ∀ held,
      registry.defaultWithin? within argument = some held → held.depth ≤ argument.depth + room)
    (h : registry.defaultArgument? within (reference.typeArgument? 0) = some held) :
    held.depth < reference.depth + room := by
  have hpos := reference.depth_pos
  cases hfirst : reference.typeArgument? 0 with
  | none =>
      rw [hfirst] at h
      obtain rfl := Option.some.inj h
      simp only [Json.depth]
      omega
  | some argument =>
      rw [hfirst] at h
      have hmem := TypeReference.mem_of_typeArgument? hfirst
      have hless := TypeReference.depth_lt_of_mem hmem
      have hdepth := hinner argument hmem held h
      omega

theorem depth_defaultWithin?_le {within : List TypeHandle}
    (h : registry.defaultWithin? within reference = some value) :
    value.depth ≤ reference.depth + registry.defaultRoom within := by
  induction within, reference using building_induction registry generalizing value with
  | step within reference inner inside =>
      cases hfound : registry.get? reference.handle with
      | none =>
          rw [defaultWithin?_of_none hfound] at h
          obtain rfl := Option.some.inj h
          exact Nat.zero_le _
      | some definition =>
          cases hbody : definition.body with
          | enumeration enumeration =>
              rw [defaultWithin?_enumeration hfound hbody] at h
              obtain rfl := Option.some.inj h
              rw [depth_ofInt]
              exact Nat.zero_le _
          | record record =>
              have hrecord : registry.IsRecord reference.handle :=
                ⟨definition, hfound, TypeDefinition.isRecord_iff.mpr ⟨record, hbody⟩⟩
              have hdepth := depth_record_le hfound hbody h fun hfresh field _ held hheld =>
                inside hrecord hfresh field.type hheld
              omega
          | builtin builtin =>
              by_cases harray : builtin = .array
              · subst harray
                rw [defaultWithin?_array hfound hbody, Option.map_eq_some_iff] at h
                obtain ⟨held, hheld, rfl⟩ := h
                have hless := depth_defaultArgument?_lt
                  (fun argument hmem _ hvalue => inner argument hmem hvalue) hheld
                refine Nat.le_trans (Json.depth_array_le fun item hitem => ?_) hless
                rw [List.eq_of_mem_replicate hitem]
              · by_cases hvariant : builtin = .variant
                · subst hvariant
                  rw [defaultWithin?_variant hfound hbody, Option.map_eq_some_iff] at h
                  obtain ⟨held, hheld, rfl⟩ := h
                  have hless := depth_defaultArgument?_lt
                    (fun argument hmem _ hvalue => inner argument hmem hvalue) hheld
                  refine Nat.le_trans (Json.depth_array_le ?_) hless
                  simp [Json.ofNat, depth_ofInt]
                · rw [defaultWithin?_simple hfound hbody harray hvariant] at h
                  obtain rfl := Option.some.inj h
                  have hsimple := depth_simpleDefault_le builtin
                  have hpos := reference.depth_pos
                  omega

/-- The default of a field is no deeper than the registry allows for. -/
theorem depth_defaultValue_le {handle : TypeHandle} {field : Field}
    (hfield : field ∈ registry.allFields handle) :
    (registry.defaultValue field.type).depth ≤ registry.defaultDepth := by
  rw [defaultValue]
  cases hvalue : registry.default? field.type with
  | none => exact Nat.zero_le _
  | some value =>
      have hdepth := depth_defaultWithin?_le hvalue
      have htype := depth_le_nesting_of_mem_allFields hfield
      have hroom : registry.defaultRoom [] ≤ registry.size * (registry.nesting + 1) :=
        Nat.mul_le_mul_right _ (unvisited_le_length registry.handles [])
      rw [Option.getD_some, defaultDepth, Nat.add_mul, Nat.one_mul]
      omega

end Registry
end LiveSchema
