import LiveSchema.Proofs.Schema.Lineage
import LiveSchema.Schema.Containment

/-!
# The search for open types

`Registry.HoldsDirectly` leads from a reference to its arguments that have to be complete and to the
types of the effective fields of its record.  The search of the library follows it from one reference
and opens each record once.  On every registry, with whatever circles of base types and of containment,
it finds an open type just if one can be reached.
-/

namespace LiveSchema

open Relation

namespace TypeDefinition

theorem mem_completeArguments {definition : TypeDefinition} {index : Nat}
    {arguments : List TemplateArgument} {inner : TypeReference} :
    inner ∈ definition.completeArguments index arguments ↔
      ∃ position, arguments[position]? = some (.type inner) ∧
        definition.needsComplete (index + position) = true := by
  induction arguments generalizing index with
  | nil => simp [completeArguments]
  | cons first rest ih =>
      -- an argument that needs to be complete is the first one or comes after it
      have hsplit : (∃ position, (first :: rest)[position]? = some (.type inner) ∧
            definition.needsComplete (index + position) = true) ↔
          first = .type inner ∧ definition.needsComplete index = true ∨
            inner ∈ definition.completeArguments (index + 1) rest := by
        rw [ih]
        constructor
        · rintro ⟨position, hfound, hneeds⟩
          cases position with
          | zero => exact Or.inl ⟨by simpa using hfound, hneeds⟩
          | succ position =>
              refine Or.inr ⟨position, by simpa using hfound, ?_⟩
              rwa [show index + 1 + position = index + (position + 1) by omega]
        · rintro (⟨rfl, hneeds⟩ | ⟨position, hfound, hneeds⟩)
          · exact ⟨0, rfl, hneeds⟩
          · refine ⟨position + 1, by simpa using hfound, ?_⟩
            rwa [show index + (position + 1) = index + 1 + position by omega]
      rw [hsplit]
      cases first with
      | size count => simp [completeArguments]
      | type reference =>
          rw [completeArguments]
          by_cases hneeds : definition.needsComplete index = true
          · simp [hneeds, eq_comm]
          · simp [hneeds]

end TypeDefinition

namespace Registry

variable {registry : Registry} {opened closed : List TypeHandle} {reference : TypeReference}
  {handle : TypeHandle}

/-- The type is a live struct or class. -/
def IsRecord (registry : Registry) (handle : TypeHandle) : Prop :=
  ∃ definition, registry.get? handle = some definition ∧ definition.isRecord = true

/-- The second reference is an argument of the first that has to be complete. -/
def CompleteArgument (registry : Registry) (reference inner : TypeReference) : Prop :=
  ∃ definition index, registry.get? reference.handle = some definition ∧
    reference.arguments[index]? = some (.type inner) ∧ definition.needsComplete index = true

/-- What a reference holds by value: its arguments that have to be complete, and the types of the
effective fields of its record. -/
inductive HoldsDirectly (registry : Registry) (reference : TypeReference) : TypeReference → Prop
  | argument {inner : TypeReference} (h : registry.CompleteArgument reference inner) :
      HoldsDirectly registry reference inner
  | field (hrecord : registry.IsRecord reference.handle) {field : Field}
      (hfield : field ∈ registry.allFields reference.handle) :
      HoldsDirectly registry reference field.type

/-- The type can be reached from the reference by value, in any number of steps. -/
def Reaches (registry : Registry) (reference : TypeReference) (handle : TypeHandle) : Prop :=
  ∃ part, ReflTransGen registry.HoldsDirectly reference part ∧ part.handle = handle

theorem Reaches.of_holdsDirectly {inner : TypeReference}
    (hstep : registry.HoldsDirectly reference inner) (h : registry.Reaches inner handle) :
    registry.Reaches reference handle := by
  obtain ⟨part, hpath, hhandle⟩ := h
  exact ⟨part, .head hstep hpath, hhandle⟩

theorem mem_insideReference {definition : TypeDefinition} {pending : Pending}
    (hfound : registry.get? reference.handle = some definition) :
    pending ∈ insideReference definition reference ↔
      (∃ inner, registry.CompleteArgument reference inner ∧ pending = .reference inner) ∨
        registry.IsRecord reference.handle ∧ pending = .fields reference.handle := by
  have hargument : ∀ inner, inner ∈ definition.completeArguments 0 reference.arguments ↔
      registry.CompleteArgument reference inner := by
    intro inner
    simp only [TypeDefinition.mem_completeArguments, Nat.zero_add, CompleteArgument, hfound,
      Option.some.injEq, exists_and_left, exists_eq_left']
  have hrecord : registry.IsRecord reference.handle ↔ definition.isRecord = true := by
    simp [IsRecord, hfound]
  rw [insideReference, List.mem_append, List.mem_map, hrecord]
  simp only [hargument, eq_comm]
  refine or_congr_right ?_
  split
  next h => simp [h]
  next h => simp [h]

/-! ## A search without a result -/

/-- Along the arguments of the reference that have to be complete stands no open type, and every record
there is closed. -/
def Cleared (registry : Registry) (opened closed : List TypeHandle) (reference : TypeReference) :
    Prop :=
  ∀ part, ReflTransGen registry.CompleteArgument reference part →
    part.handle ∉ opened ∧ (registry.IsRecord part.handle → part.handle ∈ closed)

/-- What was pending has been searched. -/
def Searched (registry : Registry) (opened closed : List TypeHandle) : Pending → Prop
  | .reference reference => registry.Cleared opened closed reference
  | .fields record => registry.IsRecord record → record ∈ closed

theorem cleared_of_insideReference {definition : TypeDefinition}
    (hfound : registry.get? reference.handle = some definition) (hhead : reference.handle ∉ opened)
    (hinside : ∀ pending ∈ insideReference definition reference,
      registry.Searched opened closed pending) :
    registry.Cleared opened closed reference := by
  intro part hpath
  rcases hpath.cases_head with rfl | ⟨inner, hargument, hrest⟩
  · refine ⟨hhead, fun hrecord => ?_⟩
    exact hinside _ ((mem_insideReference hfound).mpr (Or.inr ⟨hrecord, rfl⟩)) hrecord
  · exact hinside _ ((mem_insideReference hfound).mpr (Or.inl ⟨inner, hargument, rfl⟩)) part hrest

/-- A deleted type holds nothing. -/
theorem cleared_of_get?_eq_none (hgone : registry.get? reference.handle = none)
    (hhead : reference.handle ∉ opened) : registry.Cleared opened closed reference := by
  intro part hpath
  rcases hpath.cases_head with rfl | ⟨inner, ⟨definition, -, hfound, -⟩, -⟩
  · refine ⟨hhead, fun ⟨definition, hfound, _⟩ => ?_⟩
    exact absurd (hgone.symm.trans hfound) (by simp)
  · exact absurd (hgone.symm.trans hfound) (by simp)

/-- A search without a result has searched all that was pending, and the fields of every record that it
closed on the way. -/
theorem searched_of_findOpenFrom? (stack : List Pending)
    (hnone : registry.findOpenFrom? opened closed stack = none) :
    ∃ all : List TypeHandle, closed ⊆ all ∧
      (∀ pending ∈ stack, registry.Searched opened all pending) ∧
      ∀ record ∈ all, record ∉ closed →
        ∀ field ∈ registry.allFields record, registry.Cleared opened all field.type := by
  fun_induction registry.findOpenFrom? opened closed stack with
  | case1 closed => exact ⟨closed, List.Subset.refl _, by simp, fun _ hin hout => absurd hin hout⟩
  | case2 => exact absurd hnone (by simp)
  | case3 closed reference rest hhead hgone ih =>
      obtain ⟨all, hsubset, hsearched, hclosed⟩ := ih hnone
      refine ⟨all, hsubset, fun pending hpending => ?_, hclosed⟩
      rcases List.mem_cons.mp hpending with rfl | hpending
      · exact cleared_of_get?_eq_none hgone hhead
      · exact hsearched pending hpending
  | case4 closed reference rest hhead definition hfound _ ih =>
      obtain ⟨all, hsubset, hsearched, hclosed⟩ := ih hnone
      refine ⟨all, hsubset, fun pending hpending => ?_, hclosed⟩
      rcases List.mem_cons.mp hpending with rfl | hpending
      · exact cleared_of_insideReference hfound hhead fun inside hmem =>
          hsearched inside (List.mem_append_left _ hmem)
      · exact hsearched pending (List.mem_append_right _ hpending)
  | case5 closed record rest hfresh _ ih =>
      obtain ⟨all, hsubset, hsearched, hclosed⟩ := ih hnone
      have hrecord : record ∈ all := hsubset List.mem_cons_self
      refine ⟨all, fun _ h => hsubset (List.mem_cons_of_mem _ h), fun pending hpending => ?_,
        fun other hother hopen field hfield => ?_⟩
      · rcases List.mem_cons.mp hpending with rfl | hpending
        · exact fun _ => hrecord
        · exact hsearched pending (List.mem_append_right _ hpending)
      · by_cases hsame : other = record
        · subst hsame
          exact hsearched _ (List.mem_append_left _ (List.mem_map_of_mem hfield))
        · exact hclosed other hother (by simp [hsame, hopen]) field hfield
  | case6 closed record rest hstale ih =>
      obtain ⟨all, hsubset, hsearched, hclosed⟩ := ih hnone
      refine ⟨all, hsubset, fun pending hpending => ?_, hclosed⟩
      rcases List.mem_cons.mp hpending with rfl | hpending
      · intro ⟨d, hd, _⟩
        by_contra hout
        exact hstale ⟨mem_handles.mpr (isLive_of_get? hd), fun hin => hout (hsubset hin)⟩
      · exact hsearched pending hpending

/-- A search without a result leaves no open type that could be reached. -/
theorem not_reaches_of_findOpen? (hnone : registry.findOpen? opened reference = none)
    (h : registry.Reaches reference handle) : handle ∉ opened := by
  obtain ⟨all, -, hsearched, hclosed⟩ := searched_of_findOpenFrom? [.reference reference] hnone
  obtain ⟨part, hpath, rfl⟩ := h
  suffices hcleared : registry.Cleared opened all part from (hcleared part .refl).1
  -- everything on the way is cleared, because the record before it is closed
  induction hpath with
  | refl => exact hsearched _ List.mem_cons_self
  | tail _ hstep ih =>
      cases hstep with
      | argument hargument => exact fun inner hrest => ih inner (.head hargument hrest)
      | field hrecord hfield =>
          exact hclosed _ ((ih _ .refl).2 hrecord) List.not_mem_nil _ hfield

/-! ## A search with a result -/

/-- What is pending leads to the type. -/
def LeadsTo (registry : Registry) (handle : TypeHandle) : Pending → Prop
  | .reference reference => registry.Reaches reference handle
  | .fields record => ∃ field ∈ registry.allFields record, registry.Reaches field.type handle

/-- Whatever a reference leads to inside, it leads to itself. -/
theorem leadsTo_of_mem_insideReference {definition : TypeDefinition} {pending : Pending}
    (hfound : registry.get? reference.handle = some definition)
    (hmem : pending ∈ insideReference definition reference)
    (h : registry.LeadsTo handle pending) : registry.LeadsTo handle (.reference reference) := by
  rcases (mem_insideReference hfound).mp hmem with ⟨inner, hargument, rfl⟩ | ⟨hrecord, rfl⟩
  · exact Reaches.of_holdsDirectly (.argument hargument) h
  · obtain ⟨field, hfield, hreaches⟩ := h
    exact hreaches.of_holdsDirectly (.field hrecord hfield)

/-- The search finds nothing if nothing that is pending leads to an open type. -/
theorem findOpenFrom?_eq_none {stack : List Pending}
    (h : ∀ pending ∈ stack, ∀ handle ∈ opened, ¬ registry.LeadsTo handle pending) :
    registry.findOpenFrom? opened closed stack = none := by
  fun_induction registry.findOpenFrom? opened closed stack with
  | case1 => rfl
  | case2 closed reference rest hopen =>
      exact absurd ⟨reference, .refl, rfl⟩ (h _ List.mem_cons_self _ hopen)
  | case3 closed reference rest hopen hgone ih =>
      exact ih fun pending hmem => h pending (List.mem_cons_of_mem _ hmem)
  | case4 closed reference rest hopen definition hfound _ ih =>
      refine ih fun pending hmem handle hhandle hleads => ?_
      rcases List.mem_append.mp hmem with hmem | hmem
      · exact h _ List.mem_cons_self handle hhandle
          (leadsTo_of_mem_insideReference hfound hmem hleads)
      · exact h pending (List.mem_cons_of_mem _ hmem) handle hhandle hleads
  | case5 closed record rest hfresh _ ih =>
      refine ih fun pending hmem handle hhandle hleads => ?_
      rcases List.mem_append.mp hmem with hmem | hmem
      · obtain ⟨field, hfield, rfl⟩ := List.mem_map.mp hmem
        exact h _ List.mem_cons_self handle hhandle ⟨field, hfield, hleads⟩
      · exact h pending (List.mem_cons_of_mem _ hmem) handle hhandle hleads
  | case6 closed record rest hfresh ih =>
      exact ih fun pending hmem => h pending (List.mem_cons_of_mem _ hmem)

/-- The search finds nothing just if no open type can be reached. -/
theorem findOpen?_eq_none_iff : registry.findOpen? opened reference = none ↔
    ∀ handle ∈ opened, ¬ registry.Reaches reference handle := by
  constructor
  · exact fun hnone handle hhandle h => not_reaches_of_findOpen? hnone h hhandle
  · intro h
    refine findOpenFrom?_eq_none fun pending hmem handle hhandle => ?_
    obtain rfl := List.mem_singleton.mp hmem
    exact h handle hhandle

/-- A type without arguments leads to an open type only if it is one or one of its fields leads to one. -/
theorem findOpen?_plain_eq_none_of_fields (hclosed : handle ∉ opened)
    (hfields : ∀ field ∈ registry.allFields handle,
      registry.findOpen? opened field.type = none) :
    registry.findOpen? opened (.plain handle) = none := by
  rw [findOpen?_eq_none_iff]
  rintro _ hopen ⟨part, hpath, rfl⟩
  rcases hpath.cases_head with rfl | ⟨inner, hstep, hrest⟩
  · exact hclosed hopen
  · cases hstep with
    | argument h =>
        obtain ⟨-, index, -, hinner, -⟩ := h
        exact absurd hinner (by simp [TypeReference.plain])
    | field _ hfield =>
        exact findOpen?_eq_none_iff.mp (hfields _ hfield) _ hopen ⟨part, hrest, rfl⟩

/-- A type without fields and arguments holds nothing but itself. -/
theorem findOpen?_plain_eq_none (hclosed : handle ∉ opened)
    (hfields : registry.allFields handle = []) :
    registry.findOpen? opened (.plain handle) = none :=
  findOpen?_plain_eq_none_of_fields hclosed (by simp [hfields])

/-- A type whose fields hold nothing but themselves leads only to their types. -/
theorem findOpen?_plain_eq_none_of_flat (hclosed : handle ∉ opened)
    (hflat : ∀ field ∈ registry.allFields handle, field.type = .plain field.type.handle ∧
      field.type.handle ∉ opened ∧ registry.allFields field.type.handle = []) :
    registry.findOpen? opened (.plain handle) = none := by
  refine findOpen?_plain_eq_none_of_fields hclosed fun field hfield => ?_
  obtain ⟨hplain, hnot, hnone⟩ := hflat field hfield
  rw [hplain]
  exact findOpen?_plain_eq_none hnot hnone

end Registry
end LiveSchema
