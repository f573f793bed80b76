import LiveSchema.Proofs.Project.Types

/-!
# Restoring types stage by stage

The types of a document are described one after the other.  The texts of a type are looked up in the
registry of its stage, in which only the types before it have their parameters.  What a text spells is
the same at all stages, but whether it is legal there depends on these parameters.
-/

namespace LiveSchema

variable {α β ε : Type}

theorem exists_mapM_iff {f : α → Except ε β} {items : List α} :
    (∃ answers, items.mapM f = .ok answers) ↔ ∀ item ∈ items, ∃ answer, f item = .ok answer := by
  induction items with
  | nil => exact iff_of_true ⟨[], rfl⟩ (by simp)
  | cons first rest ih =>
      simp only [List.mapM_cons, bind_eq_ok, pure_eq_ok, List.forall_mem_cons, ← ih]
      constructor
      · rintro ⟨answers, answer, hfirst, others, hrest, -⟩
        exact ⟨⟨answer, hfirst⟩, others, hrest⟩
      · rintro ⟨⟨answer, hfirst⟩, others, hrest⟩
        exact ⟨_, answer, hfirst, others, hrest, rfl⟩

theorem mapM_some_iff {f : α → Except ε β} {item : Option α} :
    (∃ answer, item.mapM f = .ok answer) ↔ ∀ held, item = some held → ∃ answer, f held = .ok answer := by
  cases item with
  | none => exact iff_of_true ⟨none, rfl⟩ (by simp)
  | some held =>
      simp only [Option.mapM_some, Option.some.injEq, forall_eq']
      cases f held with
      | error error => simp [Functor.map, Except.map]
      | ok answer => simp [Functor.map, Except.map]

/-! ## What texts spell -/

namespace TypeText

variable {registry other : Registry}

mutual

theorem Tree.resolve_congr (h : ∀ name, other.resolve? name = registry.resolve? name) :
    (tree : Tree) → tree.resolve other = tree.resolve registry
  | ⟨offset, name, arguments⟩ => by
    rw [Tree.resolve, Tree.resolve, h, Tree.resolveArguments_congr h arguments]

theorem Tree.resolveArguments_congr (h : ∀ name, other.resolve? name = registry.resolve? name) :
    (arguments : List TreeArgument) →
      Tree.resolveArguments other arguments = Tree.resolveArguments registry arguments
  | [] => by rw [Tree.resolveArguments, Tree.resolveArguments]
  | .size offset digits :: rest => by
    rw [Tree.resolveArguments, Tree.resolveArguments, Tree.resolveArguments_congr h rest]
  | .type tree :: rest => by
    rw [Tree.resolveArguments, Tree.resolveArguments, Tree.resolve_congr h tree,
      Tree.resolveArguments_congr h rest]

end

/-- What a text spells depends on the names alone. -/
theorem parse_congr (h : ∀ name, other.resolve? name = registry.resolve? name) (text : String) :
    parse other text = parse registry text := by
  unfold parse
  cases readText text with
  | error miss => rfl
  | ok tree => exact tree.resolve_congr h

end TypeText

namespace Registry

variable {registry other : Registry} {handle : TypeHandle} {definition : TypeDefinition}
  {descriptor : TypeDescriptor}

/-! ## Names and outlines -/

/-- Both registries have types of the same names at the same places. -/
structure SameNames (registry other : Registry) : Prop where
  size : other.definitions.size = registry.definitions.size
  names : ∀ handle, (other.get? handle).map TypeDefinition.name =
    (registry.get? handle).map TypeDefinition.name

/-- The types also have the same outlines. -/
structure SameOutlines (registry other : Registry) : Prop extends SameNames registry other where
  outlines : ∀ handle, other.outline? handle = registry.outline? handle

theorem SameNames.trans {third : Registry} (h : SameNames registry other)
    (hrest : SameNames other third) : SameNames registry third where
  size := hrest.size.trans h.size
  names handle := (hrest.names handle).trans (h.names handle)

theorem SameNames.nameOf_eq (h : SameNames registry other) (handle : TypeHandle) :
    other.nameOf handle = registry.nameOf handle := by
  have hname := h.names handle
  unfold nameOf
  cases hother : other.get? handle with
  | none =>
      rw [hother, Option.map_none, eq_comm, Option.map_eq_none_iff] at hname
      rw [hname]
  | some second =>
      rw [hother, Option.map_some, eq_comm, Option.map_eq_some_iff] at hname
      obtain ⟨first, hfirst, hsame⟩ := hname
      rw [hfirst]
      exact hsame.symm

theorem SameNames.resolve?_eq (h : SameNames registry other) (name : String) :
    other.resolve? name = registry.resolve? name := by
  have hhandles : other.handles = registry.handles := by
    rw [handles, handles, h.size]
    refine List.filter_congr fun handle _ => ?_
    have hlive := congrArg Option.isSome (h.names handle)
    rwa [Option.isSome_map, Option.isSome_map] at hlive
  have hany : ∀ handle, ((other.get? handle).any fun d => decide (d.name = name)) =
      (registry.get? handle).any fun d => decide (d.name = name) := by
    intro handle
    have hname := congrArg (Option.any fun found => decide (found = name)) (h.names handle)
    rwa [Option.any_map, Option.any_map] at hname
  rw [resolve?, resolve?, hhandles]
  exact congrArg (fun p => List.find? p registry.handles) (funext hany)

theorem SameNames.parse_eq (h : SameNames registry other) (text : String) :
    TypeText.parse other text = TypeText.parse registry text :=
  TypeText.parse_congr h.resolve?_eq text

theorem SameOutlines.legal_iff (h : SameOutlines registry other) {reference : TypeReference} :
    other.Legal reference ↔ registry.Legal reference :=
  ⟨fun hlegal => hlegal.congr fun handle _ => (h.outlines handle).symm,
    fun hlegal => hlegal.congr fun handle _ => h.outlines handle⟩

/-! ## One description -/

theorem restoreReference_eq_ok {owner text : String} {reference : TypeReference} :
    registry.restoreReference owner text = .ok reference ↔
      TypeText.parse registry text = .ok reference ∧ registry.Legal reference := by
  unfold restoreReference Legal
  cases TypeText.parse registry text with
  | error cause => simp
  | ok found =>
      cases hviolation : Legality.referenceViolation? registry found with
      | some cause =>
          simp only [hviolation, reduceCtorEq, Except.ok.injEq, false_iff, not_and]
          rintro rfl
          simp [hviolation]
      | none =>
          simp only [hviolation, Except.ok.injEq, iff_self_and]
          rintro rfl
          exact hviolation

theorem restoreField_eq_ok {owner : String} {told : FieldDescriptor} {field : Field} :
    registry.restoreField owner told = .ok field ↔
      ∃ type, registry.restoreReference owner told.type = .ok type ∧
        ⟨told.name, type, told.flags, told.description⟩ = field := by
  unfold restoreField
  simp only [bind_eq_ok, pure_eq_ok]

end Registry

namespace TypeDescriptor

/-- The texts of type references in a descriptor: that of the base type and those of the fields. -/
def texts (descriptor : TypeDescriptor) : List String :=
  descriptor.base.toList ++ descriptor.fields.map FieldDescriptor.type

end TypeDescriptor

namespace Registry

variable {registry other : Registry} {handle : TypeHandle} {definition : TypeDefinition}
  {descriptor : TypeDescriptor}

/-- A type is described just if all texts of its descriptor spell legal references. -/
theorem exists_describeAs_iff :
    (∃ after, registry.describeAs handle descriptor = .ok after) ↔
      ∀ text ∈ descriptor.texts, ∃ reference, TypeText.parse registry text = .ok reference ∧
        registry.Legal reference := by
  have hbase : (∃ base, descriptor.base.mapM (registry.restoreReference (registry.nameOf handle)) =
      .ok base) ↔ _ := mapM_some_iff
  have hfields : (∃ fields, descriptor.fields.mapM (registry.restoreField (registry.nameOf handle)) =
      .ok fields) ↔ _ := exists_mapM_iff
  have hlegal (text : String) (reference : TypeReference) :
      registry.restoreReference (registry.nameOf handle) text = .ok reference ↔
        TypeText.parse registry text = .ok reference ∧ registry.Legal reference :=
    restoreReference_eq_ok
  simp only [restoreField_eq_ok] at hfields
  simp only [← hlegal, TypeDescriptor.texts, List.forall_mem_append, Option.mem_toList,
    List.forall_mem_map]
  constructor
  · rintro ⟨after, h⟩
    simp only [describeAs, bind_eq_ok] at h
    obtain ⟨base, hbaseOk, fields, hfieldsOk, -⟩ := h
    refine ⟨hbase.mp ⟨base, hbaseOk⟩, fun told htold => ?_⟩
    obtain ⟨field, type, htype, -⟩ := hfields.mp ⟨fields, hfieldsOk⟩ told htold
    exact ⟨type, htype⟩
  · rintro ⟨hbaseTexts, hfieldTexts⟩
    obtain ⟨base, hbaseOk⟩ := hbase.mpr hbaseTexts
    obtain ⟨fields, hfieldsOk⟩ := hfields.mpr fun told htold => by
      obtain ⟨type, htype⟩ := hfieldTexts told htold
      exact ⟨_, type, htype, rfl⟩
    exact ⟨_, bind_eq_ok.mpr ⟨base, hbaseOk, bind_eq_ok.mpr ⟨fields, hfieldsOk, rfl⟩⟩⟩

/-- What a description makes of a type: it keeps its name and its kind, gets the parameters that it is
told, and refers to what the texts spell. -/
structure DescribedAs (registry : Registry) (descriptor : TypeDescriptor)
    (definition described : TypeDefinition) : Prop where
  name : described.name = definition.name
  outline : described.outline = { definition.outline with parameters := descriptor.parameters }
  base : ∀ reference, described.base = some reference →
    ∃ text ∈ descriptor.texts, TypeText.parse registry text = .ok reference ∧
      registry.Legal reference
  fields : ∀ field ∈ described.fields,
    ∃ text ∈ descriptor.texts, TypeText.parse registry text = .ok field.type ∧
      registry.Legal field.type

theorem describeAs_ok (hfound : registry.get? handle = some definition)
    (h : registry.describeAs handle descriptor = .ok other) :
    ∃ described, other = registry.modify handle (fun _ => described) ∧
      registry.DescribedAs descriptor definition described := by
  simp only [describeAs, bind_eq_ok, pure_eq_ok] at h
  obtain ⟨base, hbase, fields, hfields, rfl⟩ := h
  refine ⟨_, modify_congr (g := fun _ => _) hfound rfl, ?_⟩
  have hfieldTexts : ∀ field ∈ fields, ∃ text ∈ descriptor.texts,
      TypeText.parse registry text = .ok field.type ∧ registry.Legal field.type := by
    intro field hfield
    obtain ⟨told, htold, hok⟩ := exists_of_mem_mapM_ok hfields hfield
    obtain ⟨type, htype, rfl⟩ := restoreField_eq_ok.mp hok
    exact ⟨told.type, List.mem_append_right _ (List.mem_map_of_mem htold),
      restoreReference_eq_ok.mp htype⟩
  obtain ⟨name, oldBase, parameters, body⟩ := definition
  refine ⟨rfl, ?_, fun reference hreference => ?_, fun field hfield => ?_⟩
  · cases body <;> rfl
  · obtain rfl : base = some reference := hreference
    cases htold : descriptor.base with
    | none =>
        rw [htold] at hbase
        exact absurd (Except.ok.inj hbase) (by simp)
    | some text =>
        refine ⟨text, List.mem_append_left _ (by simp [htold]), ?_⟩
        rw [htold, Option.mapM_some] at hbase
        cases hspelled : registry.restoreReference (registry.nameOf handle) text with
        | error damage =>
            rw [hspelled] at hbase
            exact absurd hbase (by simp [Functor.map, Except.map])
        | ok found =>
            rw [hspelled] at hbase
            obtain rfl := Option.some.inj (Except.ok.inj hbase)
            exact restoreReference_eq_ok.mp hspelled
  · cases body with
    | record record => exact hfieldTexts field hfield
    | enumeration | builtin => exact absurd hfield List.not_mem_nil

end Registry
namespace SchemaDocument

variable {document : SchemaDocument} {declared registry after : Registry}
  {done rest : List TypeHandle} {handle : TypeHandle}

/-! ## Stages -/

/-- The template parameters that a document gives to a type. -/
def parametersOf (document : SchemaDocument) (name : String) : List TemplateParameter :=
  ((document.descriptors.get? name).map TypeDescriptor.parameters).getD []

/-- The declared types, of which the given ones have their template parameters. -/
def withParameters (document : SchemaDocument) (declared : Registry) (handles : List TypeHandle) :
    Registry :=
  ⟨declared.definitions.mapIdx fun index found => found.map fun definition =>
    if ⟨index⟩ ∈ handles then
      { definition with parameters := document.parametersOf definition.name }
    else definition⟩

theorem get?_withParameters (handles : List TypeHandle) (handle : TypeHandle) :
    (document.withParameters declared handles).get? handle =
      (declared.get? handle).map fun definition =>
        if handle ∈ handles then
          { definition with parameters := document.parametersOf definition.name }
        else definition := by
  rw [Registry.get?_eq_join, Registry.get?_eq_join, withParameters, Array.getElem?_mapIdx]
  cases declared.definitions[handle.index]? with
  | none => rfl
  | some found => cases found <;> rfl

/-- The names do not depend on the parameters. -/
theorem sameNames_withParameters (document : SchemaDocument) (declared : Registry)
    (handles : List TypeHandle) :
    Registry.SameNames declared (document.withParameters declared handles) where
  size := by simp [withParameters]
  names handle := by
    rw [get?_withParameters, Option.map_map]
    refine congrArg (Option.map · _) (funext fun definition => ?_)
    rw [Function.comp_apply]
    split <;> rfl

/-- At first no type has its parameters. -/
theorem sameOutlines_withParameters_nil (document : SchemaDocument) (declared : Registry) :
    Registry.SameOutlines (document.withParameters declared []) declared where
  size := (sameNames_withParameters document declared []).size.symm
  names handle := ((sameNames_withParameters document declared []).names handle).symm
  outlines handle := by
    rw [Registry.outline?, Registry.outline?, get?_withParameters, Option.map_map]
    rfl

/-- A type of a document can be described at a stage if it has a descriptor and each of its texts spells
a reference that is legal there. -/
def Describes (document : SchemaDocument) (declared : Registry) (done : List TypeHandle)
    (handle : TypeHandle) : Prop :=
  ∃ descriptor, document.descriptors.get? (declared.nameOf handle) = some descriptor ∧
    ∀ text ∈ descriptor.texts, ∃ reference, TypeText.parse declared text = .ok reference ∧
      (document.withParameters declared done).Legal reference

/-- One type after the others is described just if it can be at its stage. -/
theorem exists_describeType_iff
    (hstage : Registry.SameOutlines (document.withParameters declared done) registry) :
    (∃ after, document.describeType registry handle = .ok after) ↔
      document.Describes declared done handle := by
  have hnames := (sameNames_withParameters document declared done).trans hstage.toSameNames
  unfold describeType Describes
  rw [hnames.nameOf_eq]
  cases document.descriptors.get? (declared.nameOf handle) with
  | none => simp
  | some descriptor =>
      simp only [Registry.exists_describeAs_iff, hnames.parse_eq, hstage.legal_iff,
        Option.some.injEq, exists_eq_left']

theorem outline?_withParameters_append {definition : TypeDefinition} {descriptor : TypeDescriptor}
    (hstage : Registry.SameOutlines (document.withParameters declared done) registry)
    (hfound : registry.get? handle = some definition)
    (hdescriptor : document.descriptors.get? (declared.nameOf handle) = some descriptor) :
    (document.withParameters declared (done ++ [handle])).outline? handle =
      some { definition.outline with parameters := descriptor.parameters } := by
  have hsame := hstage.outlines handle
  rw [Registry.outline?, hfound, Option.map_some, Registry.outline?, get?_withParameters,
    Option.map_map, eq_comm, Option.map_eq_some_iff] at hsame
  obtain ⟨blank, hblank, houtline⟩ := hsame
  have hparameters : document.parametersOf blank.name = descriptor.parameters := by
    rw [Registry.nameOf_of_get? hblank] at hdescriptor
    rw [parametersOf, hdescriptor, Option.map_some, Option.getD_some]
  rw [Registry.outline?, get?_withParameters, hblank, Option.map_some, Option.map_some,
    if_pos (List.mem_append_right _ (List.mem_singleton_self handle)), ← houtline, hparameters]
  -- whether the type had its parameters before or not, its kind is the same
  refine congrArg some ?_
  rw [Function.comp_apply]
  split <;> rfl

/-- Then the type has its parameters, and nothing else changes. -/
theorem describeType_ok {definition : TypeDefinition}
    (hstage : Registry.SameOutlines (document.withParameters declared done) registry)
    (hfound : registry.get? handle = some definition)
    (h : document.describeType registry handle = .ok after) :
    Registry.SameOutlines (document.withParameters declared (done ++ [handle])) after ∧
      (∀ other, other ≠ handle → after.get? other = registry.get? other) ∧
      ∃ descriptor, document.descriptors.get? (declared.nameOf handle) = some descriptor ∧
        ∀ reference, after.Refers handle reference → ∃ text ∈ descriptor.texts,
          TypeText.parse declared text = .ok reference ∧
            (document.withParameters declared done).Legal reference := by
  have hnames := (sameNames_withParameters document declared done).trans hstage.toSameNames
  unfold describeType at h
  split at h
  next => exact absurd h (by simp)
  next descriptor hdescriptor =>
      rw [hnames.nameOf_eq] at hdescriptor
      obtain ⟨described, rfl, hdescribed⟩ := Registry.describeAs_ok hfound h
      have hself : (registry.modify handle fun _ => described).get? handle = some described := by
        rw [Registry.get?_modify_self, hfound, Option.map_some]
      have hothers : ∀ other, other ≠ handle →
          (registry.modify handle fun _ => described).get? other = registry.get? other :=
        fun other hne => Registry.get?_modify_of_ne _ hne
      refine ⟨⟨⟨?_, fun other => ?_⟩, fun other => ?_⟩, hothers, descriptor, hdescriptor,
        fun reference hrefers => ?_⟩
      · rw [Registry.size_modify, hstage.size]
        simp [withParameters]
      · rw [(sameNames_withParameters document declared _).names, ← hnames.names]
        by_cases hsame : other = handle
        · rw [hsame, hself, hfound, Option.map_some, Option.map_some, hdescribed.name]
        · rw [hothers other hsame]
      · by_cases hsame : other = handle
        · rw [hsame, Registry.outline?, hself, Option.map_some, hdescribed.outline]
          exact (outline?_withParameters_append hstage hfound hdescriptor).symm
        · have hmem : other ∈ done ++ [handle] ↔ other ∈ done := by simp [hsame]
          have hbefore := hstage.outlines other
          unfold Registry.outline? at hbefore ⊢
          rw [hothers other hsame, hbefore, get?_withParameters, get?_withParameters]
          simp only [hmem]
      · have hspelled : ∀ found, (∃ text ∈ descriptor.texts,
            TypeText.parse registry text = .ok found ∧ registry.Legal found) →
            ∃ text ∈ descriptor.texts, TypeText.parse declared text = .ok found ∧
              (document.withParameters declared done).Legal found := by
          simp only [hnames.parse_eq, hstage.legal_iff]
          exact fun _ htext => htext
        cases hrefers with
        | base hlive hbase =>
            obtain rfl := Option.some.inj (hself.symm.trans hlive)
            exact hspelled _ (hdescribed.base _ hbase)
        | field hfield =>
            rw [Registry.ownFields_of_get? hself] at hfield
            exact hspelled _ (hdescribed.fields _ hfield)

/-! ## All stages -/

theorem exists_get?_of_sameOutlines
    (hstage : Registry.SameOutlines (document.withParameters declared done) registry)
    (hlive : declared.isLive handle = true) :
    ∃ definition, registry.get? handle = some definition := by
  have hnames := (sameNames_withParameters document declared done).trans hstage.toSameNames
  obtain ⟨blank, hblank⟩ := Registry.isLive_iff.mp hlive
  have hname := hnames.names handle
  rw [hblank, Option.map_some, Option.map_eq_some_iff] at hname
  obtain ⟨definition, hfound, -⟩ := hname
  exact ⟨definition, hfound⟩

/-- All types are described just if each of them can be at its stage. -/
theorem exists_foldlM_describeType_iff
    (hstage : Registry.SameOutlines (document.withParameters declared done) registry)
    (hlive : ∀ handle ∈ rest, declared.isLive handle = true) :
    (∃ after, rest.foldlM document.describeType registry = .ok after) ↔
      ∀ index handle, rest[index]? = some handle →
        document.Describes declared (done ++ rest.take index) handle := by
  induction rest generalizing done registry with
  | nil => exact iff_of_true ⟨registry, rfl⟩ (by simp)
  | cons first rest ih =>
      obtain ⟨hfirst, hothers⟩ := List.forall_mem_cons.mp hlive
      obtain ⟨definition, hfound⟩ := exists_get?_of_sameOutlines hstage hfirst
      have hnext : ∀ next, document.describeType registry first = .ok next →
          ((∃ after, rest.foldlM document.describeType next = .ok after) ↔
            ∀ index handle, rest[index]? = some handle →
              document.Describes declared (done ++ (first :: rest).take (index + 1)) handle) := by
        intro next h
        simpa using ih (describeType_ok hstage hfound h).1 hothers
      simp only [List.foldlM_cons, bind_eq_ok]
      constructor
      · rintro ⟨after, next, hdescribed, hrest⟩ index handle hindex
        cases index with
        | zero =>
            obtain rfl := Option.some.inj hindex
            rw [List.take_zero, List.append_nil]
            exact (exists_describeType_iff hstage).mp ⟨next, hdescribed⟩
        | succ index => exact (hnext next hdescribed).mp ⟨after, hrest⟩ index handle hindex
      · intro h
        have hdescribes := h 0 first rfl
        rw [List.take_zero, List.append_nil] at hdescribes
        obtain ⟨next, hdescribed⟩ := (exists_describeType_iff hstage).mpr hdescribes
        obtain ⟨after, hrest⟩ := (hnext next hdescribed).mpr fun index handle hindex =>
          h (index + 1) handle hindex
        exact ⟨after, next, hdescribed, hrest⟩

/-- After all stages every type has its parameters, and it refers to what its texts spelled at its
stage. -/
theorem foldlM_describeType_ok
    (hstage : Registry.SameOutlines (document.withParameters declared done) registry)
    (hlive : ∀ handle ∈ rest, declared.isLive handle = true) (hnodup : rest.Nodup)
    (h : rest.foldlM document.describeType registry = .ok after) :
    Registry.SameOutlines (document.withParameters declared (done ++ rest)) after ∧
      (∀ other, other ∉ rest → after.get? other = registry.get? other) ∧
      ∀ index handle, rest[index]? = some handle →
        ∀ reference, after.Refers handle reference →
          ∃ descriptor, document.descriptors.get? (declared.nameOf handle) = some descriptor ∧
            ∃ text ∈ descriptor.texts, TypeText.parse declared text = .ok reference ∧
              (document.withParameters declared (done ++ rest.take index)).Legal reference := by
  induction rest generalizing done registry with
  | nil =>
      obtain rfl := Except.ok.inj h
      exact ⟨by rwa [List.append_nil], fun _ _ => rfl, by simp⟩
  | cons first rest ih =>
      obtain ⟨hfirst, hothers⟩ := List.forall_mem_cons.mp hlive
      obtain ⟨hfresh, hrestNodup⟩ := List.nodup_cons.mp hnodup
      obtain ⟨definition, hfound⟩ := exists_get?_of_sameOutlines hstage hfirst
      rw [List.foldlM_cons, bind_eq_ok] at h
      obtain ⟨next, hdescribed, hrest⟩ := h
      obtain ⟨hsame, hkept, descriptor, hdescriptor, hspelled⟩ :=
        describeType_ok hstage hfound hdescribed
      obtain ⟨hend, hunchanged, hrefers⟩ := ih hsame hothers hrestNodup hrest
      refine ⟨by simpa using hend, fun other hother => ?_, fun index handle hindex reference href => ?_⟩
      · rw [List.mem_cons, not_or] at hother
        rw [hunchanged other hother.2, hkept other hother.1]
      · cases index with
        | zero =>
            obtain rfl := Option.some.inj hindex
            rw [List.take_zero, List.append_nil]
            exact ⟨descriptor, hdescriptor,
              hspelled reference (href.congr (hunchanged first hfresh).symm)⟩
        | succ index => simpa using hrefers index handle hindex reference href

end SchemaDocument
end LiveSchema
