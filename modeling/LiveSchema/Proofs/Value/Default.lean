import LiveSchema.Proofs.Schema.WellFormed

/-!
# Default values exist

Building the default of a type builds the defaults of its parts: of the fields of a record, of the
element of an array, of the first alternative of a variant.  Where this ends, no record is met within
itself, and the type has a default value; on a well-formed registry it always ends.

On an arbitrary registry a record may hold itself, and building its default would go on for ever.  It
ends just if the type has a default, which is told by an induction along the building of defaults that
leads on inside records not met before.
-/

namespace LiveSchema
namespace Registry

open Relation

variable {registry : Registry} {reference part : TypeReference} {definition : TypeDefinition}
  {within : List TypeHandle}

/-! ## The cases of the recursion -/

theorem defaultWithin?_of_none (hnone : registry.get? reference.handle = none) :
    registry.defaultWithin? within reference = some .null := by
  unfold defaultWithin?
  split
  next => rfl
  next hfound => exact absurd (hnone.symm.trans hfound) (by simp)

/-- The default of what an argument names; a missing argument counts as null. -/
def defaultArgument? (registry : Registry) (within : List TypeHandle) :
    Option TypeReference → Option Json
  | some inner => registry.defaultWithin? within inner
  | none => some .null

theorem defaultWithin?_of_get? (hfound : registry.get? reference.handle = some definition) :
    registry.defaultWithin? within reference =
      match definition.body with
      | .enumeration enumeration => some (.ofInt enumeration.defaultValue.toInt)
      | .record _ =>
        if reference.handle ∈ within then none
        else (registry.defaultEntries? (reference.handle :: within) []
          (registry.allFields reference.handle)).map .object
      | .builtin .array =>
        (registry.defaultArgument? within (reference.typeArgument? 0)).map fun element =>
          .array (List.replicate ((reference.sizeArgument? 1).getD 0).toNat element)
      | .builtin .variant =>
        (registry.defaultArgument? within (reference.typeArgument? 0)).map fun payload =>
          .array [.ofNat 0, payload]
      | .builtin builtin => some (simpleDefault builtin) := by
  rw [defaultWithin?]
  split
  next hnone => exact absurd (hfound.symm.trans hnone) (by simp)
  next found hfound' =>
      obtain rfl := Option.some.inj (hfound.symm.trans hfound')
      cases definition.body with
      | enumeration enumeration => rfl
      | record record => simp
      | builtin builtin =>
          cases builtin with
          | array | variant =>
              simp only
              split
              next inner hinner =>
                  simp only [hinner, defaultArgument?]
                  cases registry.defaultWithin? within inner <;> rfl
              next hnone => simp [hnone, defaultArgument?]
          | _ => rfl

theorem defaultWithin?_enumeration {enumeration : Enumeration}
    (hfound : registry.get? reference.handle = some definition)
    (hbody : definition.body = .enumeration enumeration) :
    registry.defaultWithin? within reference =
      some (.ofInt enumeration.defaultValue.toInt) := by
  rw [defaultWithin?_of_get? hfound, hbody]

theorem defaultWithin?_record {record : Record}
    (hfound : registry.get? reference.handle = some definition)
    (hbody : definition.body = .record record) :
    registry.defaultWithin? within reference =
      if reference.handle ∈ within then none
      else (registry.defaultEntries? (reference.handle :: within) []
        (registry.allFields reference.handle)).map .object := by
  rw [defaultWithin?_of_get? hfound, hbody]

theorem defaultWithin?_array (hfound : registry.get? reference.handle = some definition)
    (hbody : definition.body = .builtin .array) :
    registry.defaultWithin? within reference =
      (registry.defaultArgument? within (reference.typeArgument? 0)).map fun element =>
        .array (List.replicate ((reference.sizeArgument? 1).getD 0).toNat element) := by
  rw [defaultWithin?_of_get? hfound, hbody]

theorem defaultWithin?_variant (hfound : registry.get? reference.handle = some definition)
    (hbody : definition.body = .builtin .variant) :
    registry.defaultWithin? within reference =
      (registry.defaultArgument? within (reference.typeArgument? 0)).map fun payload =>
        .array [.ofNat 0, payload] := by
  rw [defaultWithin?_of_get? hfound, hbody]

theorem defaultWithin?_simple {builtin : Builtin}
    (hfound : registry.get? reference.handle = some definition)
    (hbody : definition.body = .builtin builtin) (harray : builtin ≠ .array)
    (hvariant : builtin ≠ .variant) :
    registry.defaultWithin? within reference = some (simpleDefault builtin) := by
  rw [defaultWithin?_of_get? hfound, hbody]
  cases builtin <;> first | rfl | contradiction

theorem defaultEntries?_nil (done : Entries) :
    registry.defaultEntries? within done [] = some done := by
  rw [defaultEntries?]

theorem defaultEntries?_cons (done : Entries) (field : Field) (rest : List Field) :
    registry.defaultEntries? within done (field :: rest) =
      (registry.defaultWithin? within field.type).bind fun value =>
        registry.defaultEntries? within (Entries.assign field.name value done) rest := by
  rw [defaultEntries?]
  rfl

theorem exists_defaultEntries? {fields : List Field}
    (h : ∀ field ∈ fields, ∃ value, registry.defaultWithin? within field.type = some value)
    (done : Entries) : ∃ entries, registry.defaultEntries? within done fields = some entries := by
  induction fields generalizing done with
  | nil => exact ⟨done, defaultEntries?_nil done⟩
  | cons field rest ih =>
      obtain ⟨value, hvalue⟩ := h field List.mem_cons_self
      rw [defaultEntries?_cons, hvalue, Option.bind_some]
      exact ih (fun other hother => h other (List.mem_cons_of_mem _ hother)) _

theorem forall_of_defaultEntries? {fields : List Field} {done entries : Entries}
    (h : registry.defaultEntries? within done fields = some entries) :
    ∀ field ∈ fields, ∃ value, registry.defaultWithin? within field.type = some value := by
  induction fields generalizing done with
  | nil => exact fun field hfield => absurd hfield List.not_mem_nil
  | cons first rest ih =>
      rw [defaultEntries?_cons, Option.bind_eq_some_iff] at h
      obtain ⟨value, hvalue, hrest⟩ := h
      exact List.forall_mem_cons.mpr ⟨⟨value, hvalue⟩, ih hrest⟩

/-! ## What a default is built from -/

/-- The default of the first type is built from that of the second: a record from its fields, an
array from its element, even if it has none, and a variant from its first alternative. -/
inductive AsksFor (registry : Registry) (whole : TypeReference) : TypeReference → Prop
  | field {field : Field} (hrecord : registry.IsRecord whole.handle)
      (hfield : field ∈ registry.allFields whole.handle) : AsksFor registry whole field.type
  | element {inner : TypeReference} (hbuiltin : registry.builtin? whole.handle = some .array)
      (hargument : whole.typeArgument? 0 = some inner) : AsksFor registry whole inner
  | alternative {inner : TypeReference}
      (hbuiltin : registry.builtin? whole.handle = some .variant)
      (hargument : whole.typeArgument? 0 = some inner) : AsksFor registry whole inner

/-- Building the default of a type ends: what it asks for, and what that asks for in turn, never goes
on for ever. -/
def Ends (registry : Registry) (reference : TypeReference) : Prop :=
  Acc (fun part whole => registry.AsksFor whole part) reference

theorem AsksFor.get? (h : registry.AsksFor reference part) :
    ∃ definition, registry.get? reference.handle = some definition := by
  cases h with
  | field hrecord _ =>
      obtain ⟨definition, hfound, -⟩ := hrecord
      exact ⟨definition, hfound⟩
  | element hbuiltin _ | alternative hbuiltin _ =>
      obtain ⟨definition, hfound, -⟩ := builtin?_eq_some.mp hbuiltin
      exact ⟨definition, hfound⟩

/-- A record asks for its fields and nothing else. -/
theorem AsksFor.exists_field {record : Record} (h : registry.AsksFor reference part)
    (hfound : registry.get? reference.handle = some definition)
    (hbody : definition.body = .record record) :
    ∃ field ∈ registry.allFields reference.handle, field.type = part := by
  have hnot : ∀ builtin, registry.builtin? reference.handle ≠ some builtin := by
    intro builtin hbuiltin
    obtain ⟨found, hfound', hbuiltin⟩ := builtin?_eq_some.mp hbuiltin
    obtain rfl := Option.some.inj (hfound.symm.trans hfound')
    exact absurd (hbody.symm.trans hbuiltin) (by simp)
  cases h with
  | field _ hfield => exact ⟨_, hfield, rfl⟩
  | element hbuiltin _ | alternative hbuiltin _ => exact absurd hbuiltin (hnot _)

/-- A type that is no record is an array or a variant, and asks for its first argument. -/
theorem AsksFor.typeArgument? (h : registry.AsksFor reference part)
    (hfound : registry.get? reference.handle = some definition)
    (hrecord : definition.isRecord = false) :
    (definition.body = .builtin .array ∨ definition.body = .builtin .variant) ∧
      reference.typeArgument? 0 = some part := by
  have hbody : ∀ builtin, registry.builtin? reference.handle = some builtin →
      definition.body = .builtin builtin := by
    intro builtin hbuiltin
    obtain ⟨found, hfound', hbody⟩ := builtin?_eq_some.mp hbuiltin
    obtain rfl := Option.some.inj (hfound.symm.trans hfound')
    exact hbody
  cases h with
  | field hrecord' _ =>
      obtain ⟨found, hfound', hrecord'⟩ := hrecord'
      obtain rfl := Option.some.inj (hfound.symm.trans hfound')
      exact absurd hrecord' (by simp [hrecord])
  | element hbuiltin hargument => exact ⟨Or.inl (hbody _ hbuiltin), hargument⟩
  | alternative hbuiltin hargument => exact ⟨Or.inr (hbody _ hbuiltin), hargument⟩

/-! ## Where building ends, the default exists -/

/-- Where building ends, nothing is built from itself. -/
theorem Ends.not_transGen (h : registry.Ends reference) :
    ¬ TransGen registry.AsksFor reference reference := by
  induction h with
  | intro reference _ ih =>
      intro hcircle
      obtain ⟨part, hasks, hback⟩ := TransGen.head'_iff.mp hcircle
      exact ih part hasks (TransGen.tail' hback hasks)

theorem Ends.of_reflTransGen (h : registry.Ends reference)
    (hpath : ReflTransGen registry.AsksFor reference part) : registry.Ends part := by
  induction hpath with
  | refl => exact h
  | tail _ hasks ih => exact ih.inv hasks

/-- A record that is being built is not met again among what its fields ask for: it would ask for the
same fields again. -/
theorem Ends.not_mem_cons (h : registry.Ends reference)
    (hopen : ∀ reached, ReflTransGen registry.AsksFor reference reached →
      registry.IsRecord reached.handle → reached.handle ∉ within) {field : Field}
    (hrecord : registry.IsRecord reference.handle)
    (hfield : field ∈ registry.allFields reference.handle) {reached : TypeReference}
    (hpath : ReflTransGen registry.AsksFor field.type reached)
    (hreached : registry.IsRecord reached.handle) :
    reached.handle ∉ reference.handle :: within := by
  have hasks : registry.AsksFor reference field.type := .field hrecord hfield
  intro hmem
  rcases List.mem_cons.mp hmem with hsame | hmem
  · have hagain : registry.AsksFor reached field.type := .field hreached (hsame ▸ hfield)
    exact (h.of_reflTransGen (.head hasks hpath)).not_transGen (TransGen.head' hagain hpath)
  · exact hopen reached (.head hasks hpath) hreached hmem

/-- The default of a type is built where the defaults of its fields and arguments are. -/
theorem exists_defaultWithin?_of_parts
    (hopen : registry.IsRecord reference.handle → reference.handle ∉ within)
    (hfields : registry.IsRecord reference.handle →
      ∀ field ∈ registry.allFields reference.handle, ∃ value,
        registry.defaultWithin? (reference.handle :: within) field.type = some value)
    (hinner : ∀ inner, reference.typeArgument? 0 = some inner → registry.AsksFor reference inner →
      ∃ value, registry.defaultWithin? within inner = some value) :
    ∃ value, registry.defaultWithin? within reference = some value := by
  have hargument : (∀ inner, reference.typeArgument? 0 = some inner →
      registry.AsksFor reference inner) →
        ∃ value, registry.defaultArgument? within (reference.typeArgument? 0) = some value := by
    intro hasks
    cases hfirst : reference.typeArgument? 0 with
    | none => exact ⟨.null, rfl⟩
    | some inner => exact hinner inner hfirst (hasks inner hfirst)
  cases hfound : registry.get? reference.handle with
  | none => exact ⟨.null, defaultWithin?_of_none hfound⟩
  | some definition =>
      cases hbody : definition.body with
      | enumeration enumeration => exact ⟨_, defaultWithin?_enumeration hfound hbody⟩
      | record record =>
          have hrecord : registry.IsRecord reference.handle :=
            ⟨definition, hfound, TypeDefinition.isRecord_iff.mpr ⟨record, hbody⟩⟩
          obtain ⟨entries, hentries⟩ := exists_defaultEntries? (hfields hrecord) []
          exact ⟨.object entries, by
            rw [defaultWithin?_record hfound hbody, if_neg (hopen hrecord), hentries,
              Option.map_some]⟩
      | builtin builtin =>
          have hbuiltin := builtin?_eq_some.mpr ⟨definition, hfound, hbody⟩
          by_cases harray : builtin = .array
          · subst harray
            obtain ⟨value, hvalue⟩ := hargument fun inner => .element hbuiltin
            exact ⟨_, by rw [defaultWithin?_array hfound hbody, hvalue, Option.map_some]⟩
          · by_cases hvariant : builtin = .variant
            · subst hvariant
              obtain ⟨value, hvalue⟩ := hargument fun inner => .alternative hbuiltin
              exact ⟨_, by rw [defaultWithin?_variant hfound hbody, hvalue, Option.map_some]⟩
            · exact ⟨_, defaultWithin?_simple hfound hbody harray hvariant⟩

/-- Where building ends, the default is built inside any records that are not built on the way. -/
theorem Ends.exists_defaultWithin? (h : registry.Ends reference)
    (hopen : ∀ reached, ReflTransGen registry.AsksFor reference reached →
      registry.IsRecord reached.handle → reached.handle ∉ within) :
    ∃ value, registry.defaultWithin? within reference = some value := by
  have hends := h
  induction h generalizing within with
  | intro reference _ ih =>
      refine exists_defaultWithin?_of_parts (hopen reference .refl) ?_ ?_
      · intro hrecord field hfield
        have hasks : registry.AsksFor reference field.type := .field hrecord hfield
        exact ih field.type hasks (fun _ => hends.not_mem_cons hopen hrecord hfield)
          (hends.inv hasks)
      · intro inner _ hasks
        exact ih inner hasks (fun reached hpath => hopen reached (.head hasks hpath))
          (hends.inv hasks)

theorem Ends.exists_default? (h : registry.Ends reference) :
    ∃ value, registry.default? reference = some value :=
  h.exists_defaultWithin? fun _ _ _ => List.not_mem_nil

/-! ## On a well-formed registry -/

/-- Building the default of the first type builds that of the second. -/
inductive Builds (registry : Registry) (whole : TypeReference) : TypeReference → Prop
  | field {field : Field} (hfield : field ∈ registry.allFields whole.handle) :
      Builds registry whole field.type
  | element {inner : TypeReference} (hbuiltin : registry.builtin? whole.handle = some .array)
      (hargument : whole.typeArgument? 0 = some inner) : Builds registry whole inner
  | alternative {inner : TypeReference}
      (hbuiltin : registry.builtin? whole.handle = some .variant)
      (hargument : whole.typeArgument? 0 = some inner) : Builds registry whole inner

/-- What is built for an argument is held by value. -/
theorem holds_of_builtin {builtin : Builtin} {inner : TypeReference} {part : TypeHandle}
    (hbuiltin : registry.builtin? reference.handle = some builtin)
    (href : builtin ≠ .ref) (hown : builtin ≠ .own)
    (hargument : reference.typeArgument? 0 = some inner) (h : registry.Holds inner part) :
    registry.Holds reference part := by
  refine .argument ?_ (TypeReference.mem_of_typeArgument? hargument) h
  rintro (hpointer | hpointer)
  · exact href (Option.some.inj (hbuiltin.symm.trans hpointer))
  · exact hown (Option.some.inj (hbuiltin.symm.trans hpointer))

theorem acc_builds_of_parts
    (h : ∀ part, registry.Holds reference part → ∀ field ∈ registry.allFields part,
      Acc (fun b a => registry.Builds a b) field.type) :
    Acc (fun b a => registry.Builds a b) reference := by
  induction reference using TypeReference.inner_induction with
  | step reference ih =>
      refine Acc.intro reference fun inner hbuilds => ?_
      cases hbuilds with
      | field hfield => exact h reference.handle (.head reference) _ hfield
      | element hbuiltin hargument =>
          refine ih inner (TypeReference.mem_of_typeArgument? hargument) fun part hholds => ?_
          exact h part (holds_of_builtin hbuiltin (by simp) (by simp) hargument hholds)
      | alternative hbuiltin hargument =>
          refine ih inner (TypeReference.mem_of_typeArgument? hargument) fun part hholds => ?_
          exact h part (holds_of_builtin hbuiltin (by simp) (by simp) hargument hholds)

/-- Building a default value never goes on for ever. -/
theorem WellFormed.acc_builds (hwf : registry.WellFormed) (reference : TypeReference) :
    Acc (fun b a => registry.Builds a b) reference := by
  have hfields : ∀ handle, ∀ field ∈ registry.allFields handle,
      Acc (fun b a => registry.Builds a b) field.type := by
    intro handle
    have hacc : Acc (fun part record => registry.ByValue record part) handle := by
      refine hwf.containment.acc registry.handles (fun record part hstep => ?_) handle
      obtain ⟨d, hd, -⟩ := hwf.isRecord_of_byValue hstep
      exact mem_handles.mpr (isLive_of_get? hd)
    -- the defaults of the parts of a record are built before that of the record
    induction hacc with
    | intro handle _ ih =>
        intro field hfield
        exact acc_builds_of_parts fun part hholds => ih part ⟨field, hfield, hholds⟩
  exact acc_builds_of_parts fun part _ => hfields part

theorem AsksFor.builds (h : registry.AsksFor reference part) : registry.Builds reference part := by
  cases h with
  | field _ hfield => exact .field hfield
  | element hbuiltin hargument => exact .element hbuiltin hargument
  | alternative hbuiltin hargument => exact .alternative hbuiltin hargument

theorem WellFormed.ends (hwf : registry.WellFormed) (reference : TypeReference) :
    registry.Ends reference :=
  Subrelation.accessible AsksFor.builds (hwf.acc_builds reference)

/-- Every type of a well-formed registry has a default value. -/
theorem WellFormed.exists_default? (hwf : registry.WellFormed) (reference : TypeReference) :
    ∃ value, registry.default? reference = some value :=
  (hwf.ends reference).exists_default?

/-! ## When building ends -/

/-- Induction along the building of defaults: the arguments of a reference come before it, and inside a
record that was not met before comes everything. -/
theorem building_induction (registry : Registry)
    {motive : List TypeHandle → TypeReference → Prop}
    (step : ∀ within reference,
      (∀ inner, TemplateArgument.type inner ∈ reference.arguments → motive within inner) →
      (registry.IsRecord reference.handle → reference.handle ∉ within →
        ∀ part, motive (reference.handle :: within) part) → motive within reference)
    (within : List TypeHandle) (reference : TypeReference) : motive within reference := by
  induction hn : unvisited registry.handles within using Nat.strongRecOn
    generalizing within reference with
  | ind n outer =>
      induction reference using TypeReference.inner_induction with
      | step reference inner =>
          refine step within reference inner fun hrecord hfresh part => ?_
          obtain ⟨definition, hfound, -⟩ := hrecord
          have hless := unvisited_cons_lt (mem_handles.mpr (isLive_of_get? hfound)) hfresh
          exact outer _ (hn ▸ hless) _ part rfl

/-- Where a default was built, it was built from the defaults of what the type asks for. -/
theorem AsksFor.exists_defaultWithin? (h : registry.AsksFor reference part) {value : Json}
    (hvalue : registry.defaultWithin? within reference = some value) :
    (TemplateArgument.type part ∈ reference.arguments ∧
        ∃ held, registry.defaultWithin? within part = some held) ∨
      (registry.IsRecord reference.handle ∧ reference.handle ∉ within ∧
        ∃ held, registry.defaultWithin? (reference.handle :: within) part = some held) := by
  obtain ⟨definition, hfound⟩ := h.get?
  cases hrecord : definition.isRecord with
  | true =>
      obtain ⟨record, hbody⟩ := TypeDefinition.isRecord_iff.mp hrecord
      obtain ⟨field, hfield, rfl⟩ := h.exists_field hfound hbody
      rw [defaultWithin?_record hfound hbody] at hvalue
      split at hvalue
      · exact absurd hvalue (by simp)
      next hfresh =>
          obtain ⟨entries, hentries, -⟩ := Option.map_eq_some_iff.mp hvalue
          exact Or.inr ⟨⟨definition, hfound, hrecord⟩, hfresh,
            forall_of_defaultEntries? hentries field hfield⟩
  | false =>
      obtain ⟨hbody, hargument⟩ := h.typeArgument? hfound hrecord
      refine Or.inl ⟨TypeReference.mem_of_typeArgument? hargument, ?_⟩
      rcases hbody with hbody | hbody
      · rw [defaultWithin?_array hfound hbody, hargument, Option.map_eq_some_iff] at hvalue
        obtain ⟨held, hheld, -⟩ := hvalue
        exact ⟨held, hheld⟩
      · rw [defaultWithin?_variant hfound hbody, hargument, Option.map_eq_some_iff] at hvalue
        obtain ⟨held, hheld, -⟩ := hvalue
        exact ⟨held, hheld⟩

theorem ends_of_defaultWithin? {value : Json}
    (h : registry.defaultWithin? within reference = some value) : registry.Ends reference := by
  induction within, reference using building_induction registry generalizing value with
  | step within reference inner inside =>
      refine Acc.intro reference fun part hasks => ?_
      rcases hasks.exists_defaultWithin? h with
        ⟨hmem, held, hheld⟩ | ⟨hrecord, hfresh, held, hheld⟩
      · exact inner part hmem hheld
      · exact inside hrecord hfresh part hheld

/-- Building the default of a type ends just if the type has one. -/
theorem ends_iff_exists_default? :
    registry.Ends reference ↔ ∃ value, registry.default? reference = some value := by
  constructor
  · exact Ends.exists_default?
  · rintro ⟨value, hvalue⟩
    exact ends_of_defaultWithin? hvalue

end Registry
end LiveSchema
