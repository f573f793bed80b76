import LiveSchema.Proofs.Schema.Edits

/-!
# Other base types

A record that passes the check may get another base type: the search from the new base finds neither
the record nor what extends it, so no circle of containment goes through the inherited fields.  A
record may also take over the fields of its base type and derive from the base type of that, which
leaves all effective fields as they are.
-/

namespace LiveSchema
namespace Registry

open Relation

variable {registry : Registry} {record handle : TypeHandle}

/-- The effective fields that a base type hands on. -/
def inheritedFields (registry : Registry) (base : Option TypeReference) : List Field :=
  match base with
  | none => []
  | some reference => registry.allFields reference.handle

theorem get?_setBase (base : Option TypeReference) (other : TypeHandle) :
    (registry.setBase record base).get? other =
      if other = record then
        (registry.get? record).map fun definition => { definition with base := base }
      else registry.get? other :=
  get?_modify registry record other _

theorem baseOf?_setBase (base : Option TypeReference) (hrecord : registry.IsRecord record) :
    (registry.setBase record base).baseOf? record = base.map TypeReference.handle := by
  obtain ⟨d, hd, -⟩ := hrecord
  simp [baseOf?, get?_setBase, hd]

theorem ownFields_setBase (base : Option TypeReference) (other : TypeHandle) :
    (registry.setBase record base).ownFields other = registry.ownFields other := by
  unfold setBase
  exact ownFields_modify (f := fun definition => { definition with base := base })
    (fun _ => rfl) other

/-- No field of what extends the record has the name of a field that a base without shadowings hands
on. -/
theorem name_ne_of_shadowings {base : TypeHandle}
    (hshadowed : Legality.shadowings registry record base = [])
    {owner : TypeHandle} (hextends : registry.Extends owner record)
    {field inherited : Field} (hfield : field ∈ registry.ownFields owner)
    (hinherited : inherited ∈ registry.allFields base) : inherited.name ≠ field.name := by
  intro hname
  obtain ⟨owned, howned, rfl⟩ := List.mem_map.mp hinherited
  unfold Legality.shadowings at hshadowed
  have hmem := (mem_family_iff record owner).mpr hextends
  have hnone := List.filterMap_eq_nil_iff.mp
    (List.flatMap_eq_nil_iff.mp hshadowed owner hmem) field hfield
  rw [Option.map_eq_none_iff, Legality.inheritedField?, List.find?_eq_none] at hnone
  exact hnone owned (List.mem_reverse.mpr howned) (by simpa using hname)

/-- Nothing is hidden where no field of what extends the record has the name of a field that is handed
on. -/
theorem shadowings_eq_nil {base : TypeHandle}
    (h : ∀ owner, registry.Extends owner record → ∀ field ∈ registry.ownFields owner,
      ∀ inherited ∈ registry.allFields base, inherited.name ≠ field.name) :
    Legality.shadowings registry record base = [] := by
  refine List.flatMap_eq_nil_iff.mpr fun owner howner => ?_
  refine List.filterMap_eq_nil_iff.mpr fun field hfield => ?_
  rw [Option.map_eq_none_iff, Legality.inheritedField?, List.find?_eq_none]
  intro owned howned
  have hne := h owner ((mem_family_iff record owner).mp howner) field hfield
    owned.field (List.mem_map_of_mem (List.mem_reverse.mp howned))
  simpa using hne

section SetBase

variable {candidate : Option TypeReference}

/-- A base type that passed its check does not lead back to the record. -/
theorem not_extends_of_checkBase
    (hcheck : Legality.checkBase registry record candidate = .ok ())
    {reference : TypeReference} (hreference : candidate = some reference) :
    ¬ registry.Extends reference.handle record := by
  obtain ⟨d, -, -, hfits⟩ := Legality.checkBase_eq_ok.mp hcheck
  obtain ⟨base, hfits⟩ := hfits reference hreference
  rw [← isParentOf_iff, hfits.below]
  exact Bool.false_ne_true

theorem WellFormed.inheritance_setBase (hwf : registry.WellFormed)
    (hcheck : Legality.checkBase registry record candidate = .ok ()) :
    Acyclic (registry.setBase record candidate).DerivesFrom := by
  have hagree : AgreeApart registry (registry.setBase record candidate) record :=
    agreeApart_modify registry record _
  obtain ⟨d, hd, hrecord, -⟩ := Legality.checkBase_eq_ok.mp hcheck
  have hbase := baseOf?_setBase candidate ⟨d, hd, hrecord⟩
  refine hwf.inheritance.of_new_edges
    (F := fun source => source = record)
    (T := fun target => ∃ reference, candidate = some reference ∧ reference.handle = target) ?_ ?_
  · intro source target hstep
    by_cases hsame : source = record
    · subst hsame
      rw [DerivesFrom, hbase, Option.map_eq_some_iff] at hstep
      exact Or.inr ⟨rfl, hstep⟩
    · exact Or.inl ((hagree.derivesFrom hsame).mp hstep)
  · rintro target source ⟨reference, hreference, rfl⟩ rfl hpath
    exact not_extends_of_checkBase hcheck hreference hpath

/-- The effective fields with a new base: inherited ones, those of the record, those below it. -/
theorem WellFormed.allFields_setBase (hwf : registry.WellFormed)
    (hcheck : Legality.checkBase registry record candidate = .ok ())
    (hextends : registry.Extends handle record) :
    ∃ inherited below,
      (∀ field ∈ below, ∃ owner, registry.Extends owner record ∧
        field ∈ registry.ownFields owner) ∧
      registry.allFields handle = inherited ++ registry.ownFields record ++ below ∧
      (registry.setBase record candidate).allFields handle =
        registry.inheritedFields candidate ++ registry.ownFields record ++ below := by
  have hagree : AgreeApart registry (registry.setBase record candidate) record :=
    agreeApart_modify registry record _
  have hinheritance := hwf.inheritance_setBase hcheck
  obtain ⟨d, hd, hrecord, -⟩ := Legality.checkBase_eq_ok.mp hcheck
  have hbase := baseOf?_setBase candidate ⟨d, hd, hrecord⟩
  have hrecordFields : (registry.setBase record candidate).allFields record =
      registry.inheritedFields candidate ++ registry.ownFields record := by
    cases hcandidate : candidate with
    | none =>
        subst hcandidate
        rw [allFields_of_root hinheritance hbase, ownFields_setBase, inheritedFields, List.nil_append]
    | some reference =>
        have hout := not_extends_of_checkBase hcheck hcandidate
        subst hcandidate
        rw [allFields_of_base hinheritance hbase, ownFields_setBase, inheritedFields,
          hagree.allFields_of_not_extends hwf.inheritance hinheritance hout]
  obtain ⟨inherited, hinherited, -⟩ := exists_allFields_eq hwf.inheritance record
  obtain ⟨below, hbelow, hold, hnew⟩ :=
    hagree.allFields_of_extends hwf.inheritance hinheritance hextends
  refine ⟨inherited, below, hbelow, ?_, ?_⟩
  · rw [hold, hinherited]
  · rw [hnew, hrecordFields]

/-- A record may get a base type that passes the check. -/
theorem WellFormed.setBase (hwf : registry.WellFormed)
    (hcheck : Legality.checkBase registry record candidate = .ok ()) :
    (registry.setBase record candidate).WellFormed := by
  obtain ⟨d, hd, hrecord, hfits⟩ := Legality.checkBase_eq_ok.mp hcheck
  refine hwf.apart record ?_ (agreeApart_modify registry record _)
    (hwf.inheritance_setBase hcheck) ?_ ?_ ?_
  · refine hwf.toFormed.modify hd (TypeDefinition.isBuiltin_of_isRecord hrecord) rfl ?_ ?_
    · intro base hbase
      obtain ⟨b, hfits⟩ := hfits base hbase
      exact ⟨hrecord, hfits.legal, b, hfits.found, hfits.variant⟩
    · intro field hfield
      exact hwf.fields record field (by rwa [ownFields_of_get? hd])
  · intro handle hextends
    obtain ⟨inherited, below, hbelow, hold, hnew⟩ := hwf.allFields_setBase hcheck hextends
    have hkept : ((registry.ownFields record ++ below).map Field.name).Nodup := by
      have hwhole := hwf.names_split hold
      rw [List.append_assoc, List.map_append] at hwhole
      exact (List.nodup_append.mp hwhole).2.1
    rw [allFieldNames, hnew, List.append_assoc, List.map_append]
    cases hcandidate : candidate with
    | none => simpa [inheritedFields] using hkept
    | some reference =>
        obtain ⟨b, hfits⟩ := hfits reference hcandidate
        refine List.nodup_append.mpr ⟨hwf.names reference.handle, hkept, ?_⟩
        -- a field of the record or below it has no name that is handed on
        intro name hname other hother hsame
        obtain ⟨above, habove, rfl⟩ := List.mem_map.mp hname
        obtain ⟨field, hfield, rfl⟩ := List.mem_map.mp hother
        rcases List.mem_append.mp hfield with hfield | hfield
        · exact name_ne_of_shadowings hfits.shadowed .refl hfield habove hsame
        · obtain ⟨owner, howner, hfield⟩ := hbelow field hfield
          exact name_ne_of_shadowings hfits.shadowed howner hfield habove hsame
  · intro handle hextends field hfield
    obtain ⟨inherited, below, -, hold, hnew⟩ := hwf.allFields_setBase hcheck hextends
    rw [hnew, List.append_assoc] at hfield
    rcases List.mem_append.mp hfield with hfield | hfield
    · cases hcandidate : candidate with
      | none =>
          rw [hcandidate, inheritedFields] at hfield
          exact absurd hfield List.not_mem_nil
      | some reference =>
          obtain ⟨b, hfits⟩ := hfits reference hcandidate
          rw [hcandidate, inheritedFields] at hfield
          have havoids := hwf.avoids_of_findOpen? hfits.legal hfits.free
          refine Or.inr fun part reached hheld hpath => ?_
          have hstep : registry.ByValue reference.handle part := ⟨field, hfield, hheld⟩
          exact havoids reference.handle reached (.head reference) (.head hstep hpath)
    · refine Or.inl ⟨field, ?_, rfl⟩
      rw [hold, List.append_assoc]
      exact List.mem_append_right _ hfield
  · exact hwf.typeNames_modify fun _ => rfl

end SetBase

/-! ## One level less -/

section Flatten

variable {base : TypeHandle} {baseDefinition : TypeDefinition}

/-- The registry in which a record has the fields of its base type and derives from its base type. -/
def flatten (registry : Registry) (record : TypeHandle) (fields : List Field)
    (grandparent : Option TypeReference) : Registry :=
  (registry.modifyFields record fun own => fields ++ own).setBase record grandparent

theorem flatten_eq_modify (fields : List Field) (grandparent : Option TypeReference) :
    registry.flatten record fields grandparent = registry.modify record fun definition =>
      { definition.mapRecord (fun own => { own with fields := fields ++ own.fields }) with
        base := grandparent } := by
  rw [flatten, setBase, modifyFields, modifyRecord, modify_modify]

theorem baseOf?_flatten (fields : List Field) (grandparent : Option TypeReference)
    (hrecord : registry.IsRecord record) :
    (registry.flatten record fields grandparent).baseOf? record =
      grandparent.map TypeReference.handle := by
  obtain ⟨d, hd, -⟩ := hrecord
  simp [flatten_eq_modify, baseOf?, get?_modify, hd]

theorem ownFields_flatten (fields : List Field) (grandparent : Option TypeReference)
    (hrecord : registry.IsRecord record) :
    (registry.flatten record fields grandparent).ownFields record =
      fields ++ registry.ownFields record := by
  rw [flatten, ownFields_setBase, ownFields_modifyFields _ hrecord]

theorem WellFormed.inheritance_flatten (hwf : registry.WellFormed)
    (hbase : registry.DerivesFrom record base)
    (hfound : registry.get? base = some baseDefinition) :
    Acyclic (registry.flatten record baseDefinition.fields baseDefinition.base).DerivesFrom := by
  obtain ⟨d, -, hd, -, hrecord, -⟩ := hwf.record_of_baseOf? hbase
  have hagree : AgreeApart registry
      (registry.flatten record baseDefinition.fields baseDefinition.base) record := by
    rw [flatten_eq_modify]
    exact agreeApart_modify registry record _
  intro a hcircle
  refine hwf.inheritance a (TransGen.closed (fun source target hstep => ?_) a a hcircle)
  by_cases hsame : source = record
  · subst hsame
    rw [DerivesFrom, baseOf?_flatten _ _ ⟨d, hd, hrecord⟩, ← baseOf?_of_get? hfound] at hstep
    exact .head hbase (.single hstep)
  · exact .single ((hagree.derivesFrom hsame).mp hstep)

/-- Taking over the fields of the base type leaves all effective fields as they are. -/
theorem WellFormed.allFields_flatten (hwf : registry.WellFormed)
    (hbase : registry.DerivesFrom record base)
    (hfound : registry.get? base = some baseDefinition) (handle : TypeHandle) :
    (registry.flatten record baseDefinition.fields baseDefinition.base).allFields handle =
      registry.allFields handle := by
  obtain ⟨d, -, hd, -, hrecord, -⟩ := hwf.record_of_baseOf? hbase
  have hinheritance := hwf.inheritance_flatten hbase hfound
  have hagree : AgreeApart registry
      (registry.flatten record baseDefinition.fields baseDefinition.base) record := by
    rw [flatten_eq_modify]
    exact agreeApart_modify registry record _
  have hnewBase := baseOf?_flatten baseDefinition.fields baseDefinition.base ⟨d, hd, hrecord⟩
  have hnewOwn := ownFields_flatten baseDefinition.fields baseDefinition.base ⟨d, hd, hrecord⟩
  have hold := allFields_of_base hwf.inheritance hbase
  have hrecordFields :
      (registry.flatten record baseDefinition.fields baseDefinition.base).allFields record =
        registry.allFields record := by
    cases hgrandparent : registry.baseOf? base with
    | none =>
        rw [← baseOf?_of_get? hfound, hgrandparent] at hnewBase
        rw [allFields_of_root hinheritance hnewBase, hold,
          allFields_of_root hwf.inheritance hgrandparent, hnewOwn, ownFields_of_get? hfound]
    | some grandparent =>
        rw [← baseOf?_of_get? hfound, hgrandparent] at hnewBase
        have hout : ¬ registry.Extends grandparent record := fun h =>
          hwf.inheritance record (.head hbase (.head' hgrandparent h))
        rw [allFields_of_base hinheritance hnewBase, hold,
          allFields_of_base hwf.inheritance hgrandparent, hnewOwn, ownFields_of_get? hfound,
          hagree.allFields_of_not_extends hwf.inheritance hinheritance hout, List.append_assoc]
  by_cases hextends : registry.Extends handle record
  · obtain ⟨below, -, hbefore, hafter⟩ :=
      hagree.allFields_of_extends hwf.inheritance hinheritance hextends
    rw [hafter, hbefore, hrecordFields]
  · exact hagree.allFields_of_not_extends hwf.inheritance hinheritance hextends

/-- No own field has the name of an inherited one. -/
theorem WellFormed.name_ne_of_ancestor (hwf : registry.WellFormed) {owner above : TypeHandle}
    (hbelow : TransGen registry.DerivesFrom owner above) {field inherited : Field}
    (hfield : field ∈ registry.ownFields owner) (hinherited : inherited ∈ registry.allFields above) :
    inherited.name ≠ field.name := by
  obtain ⟨parent, hparent, hrest⟩ := TransGen.head'_iff.mp hbelow
  have hhanded : inherited ∈ registry.allFields parent := by
    obtain ⟨declaring, hdeclaring, hown⟩ := (mem_allFields_iff hwf.inheritance).mp hinherited
    exact (mem_allFields_iff hwf.inheritance).mpr ⟨declaring, hrest.trans hdeclaring, hown⟩
  have hnames := hwf.names owner
  rw [allFieldNames, allFields_of_base hwf.inheritance hparent, List.map_append] at hnames
  exact (List.nodup_append.mp hnames).2.2 _ (List.mem_map_of_mem hhanded) _
    (List.mem_map_of_mem hfield)

/-- A reference to a record holds nothing but the record. -/
theorem WellFormed.eq_of_holds_record (hwf : registry.WellFormed) {reference : TypeReference}
    {definition : TypeDefinition} {part : TypeHandle} (hlegal : registry.Legal reference)
    (hget : registry.get? reference.handle = some definition)
    (hrecord : definition.isRecord = true) (h : registry.Holds reference part) :
    part = reference.handle := by
  rcases (hwf.toFormed.holds_iff hlegal hget).mp h with hsame | ⟨inner, hinner, -⟩
  · exact hsame
  · obtain ⟨position, -, hneeds⟩ := TypeDefinition.mem_completeArguments.mp hinner
    obtain ⟨parameter, hparameter, -⟩ := Option.any_eq_true _ _ |>.mp hneeds
    have hmem := TypeDefinition.mem_of_parameterFor? hparameter
    rw [hwf.parameters _ _ hget (TypeDefinition.isBuiltin_of_isRecord hrecord)] at hmem
    exact absurd hmem List.not_mem_nil

/-- An ancestor holds no record below it by value: that record has inherited its fields, and would hold
itself. -/
theorem WellFormed.avoids_ancestor (hwf : registry.WellFormed) {reference : TypeReference}
    {definition : TypeDefinition} (hlegal : registry.Legal reference)
    (hget : registry.get? reference.handle = some definition)
    (hrecord : definition.isRecord = true)
    (hbelow : TransGen registry.DerivesFrom record reference.handle) :
    registry.Avoids record reference := by
  intro part reached hholds hpath hextends
  obtain rfl := hwf.eq_of_holds_record hlegal hget hrecord hholds
  have hreached : TransGen registry.DerivesFrom reached reference.handle :=
    TransGen.trans_right hextends hbelow
  rcases hpath.cases_head with hsame | ⟨held, ⟨field, hfield, hheld⟩, hrest⟩
  · exact hwf.inheritance reached (hsame ▸ hreached)
  · obtain ⟨declaring, hdeclaring, hown⟩ := (mem_allFields_iff hwf.inheritance).mp hfield
    have hinherited : field ∈ registry.allFields reached :=
      (mem_allFields_iff hwf.inheritance).mpr
        ⟨declaring, hreached.to_reflTransGen.trans hdeclaring, hown⟩
    exact hwf.containment reached (.head' ⟨field, hinherited, hheld⟩ hrest)

/-- A type of the same variant passes the check for a base type if it does not derive from the record, has
no field of the same name, and its own fields hold nothing but themselves. -/
theorem checkBase_of_flat {base : TypeHandle}
    (hvariant : (registry.get? record).any (fun definition => definition.isRecord &&
      decide ((registry.get? base).map TypeDefinition.variant = some definition.variant)) = true)
    (hlegal : Legality.referenceViolation? registry (.plain base) = none)
    (hbelow : registry.isParentOf record base = false)
    (hshadowed : Legality.shadowings registry record base = [])
    (hflat : ∀ field ∈ registry.allFields base, field.type = .plain field.type.handle ∧
      registry.isParentOf record field.type.handle = false ∧
        registry.allFields field.type.handle = []) :
    Legality.checkBase registry record (some (.plain base)) = .ok () := by
  have hout : ∀ {other}, registry.isParentOf record other = false →
      other ∉ registry.family record := by
    intro other hother
    rw [mem_family_iff, ← isParentOf_iff, hother]
    exact Bool.false_ne_true
  have hfree : registry.findOpen? (registry.family record) (.plain base) = none :=
    findOpen?_plain_eq_none_of_flat (hout hbelow) fun field hfield =>
      ⟨(hflat field hfield).1, hout (hflat field hfield).2.1, (hflat field hfield).2.2⟩
  cases hfound : registry.get? record with
  | none => simp [hfound] at hvariant
  | some definition =>
      simp only [hfound, Option.any_some, Bool.and_eq_true, decide_eq_true_eq,
        Option.map_eq_some_iff] at hvariant
      obtain ⟨hrecord, candidate, hcandidate, hsame⟩ := hvariant
      refine Legality.checkBase_eq_ok.mpr ⟨definition, hfound, hrecord, fun reference hreference => ?_⟩
      obtain rfl := Option.some.inj hreference
      exact ⟨candidate, hcandidate, hsame, hlegal, hbelow, hshadowed, hfree⟩

/-- The base type of the base type always passes the check for a base type. -/
theorem WellFormed.checkBase_of_base (hwf : registry.WellFormed)
    (hbase : registry.DerivesFrom record base)
    (hfound : registry.get? base = some baseDefinition) :
    Legality.checkBase registry record baseDefinition.base = .ok () := by
  obtain ⟨d, b, hd, hb, hrecord, -, hvariant⟩ := hwf.record_of_baseOf? hbase
  obtain rfl : b = baseDefinition := Option.some.inj (hb.symm.trans hfound)
  refine Legality.checkBase_eq_ok.mpr ⟨d, hd, hrecord, fun reference hreference => ?_⟩
  obtain ⟨hbaseRecord, hlegal, g, hg, hsame⟩ := hwf.suitable_base hfound hreference
  have hstep : registry.DerivesFrom base reference.handle := by
    rw [DerivesFrom, baseOf?_of_get? hfound, hreference, Option.map_some]
  have hbelow : TransGen registry.DerivesFrom record reference.handle :=
    .tail (.single hbase) hstep
  have hgRecord : g.isRecord = true := by
    rw [TypeDefinition.isRecord_eq_of_variant hsame, hbaseRecord]
  refine ⟨g, hg, hsame.trans hvariant, hlegal, ?_, ?_, ?_⟩
  · rw [← Bool.not_eq_true, isParentOf_iff]
    exact fun hextends => hwf.inheritance record (hbelow.trans_left hextends)
  · refine shadowings_eq_nil fun owner howner field hfield inherited hinherited => ?_
    exact hwf.name_ne_of_ancestor (TransGen.trans_right howner hbelow) hfield hinherited
  · exact hwf.findOpen?_of_avoids (hwf.avoids_ancestor hlegal hg hgRecord hbelow)

/-- A record may take over the fields of its base type. -/
theorem WellFormed.flatten (hwf : registry.WellFormed)
    (hbase : registry.DerivesFrom record base)
    (hfound : registry.get? base = some baseDefinition) :
    (registry.flatten record baseDefinition.fields baseDefinition.base).WellFormed := by
  obtain ⟨d, b, hd, hb, hrecord, -, hvariant⟩ := hwf.record_of_baseOf? hbase
  obtain rfl : b = baseDefinition := Option.some.inj (hb.symm.trans hfound)
  have hagree : AgreeApart registry (registry.flatten record b.fields b.base) record := by
    rw [flatten_eq_modify]
    exact agreeApart_modify registry record _
  have hallFields := hwf.allFields_flatten hbase hfound
  refine hwf.apart record ?_ hagree (hwf.inheritance_flatten hbase hfound) ?_ ?_ ?_
  · rw [flatten_eq_modify]
    refine hwf.toFormed.modify hd (TypeDefinition.isBuiltin_of_isRecord hrecord) ?_ ?_ ?_
    · exact TypeDefinition.mapRecord_outline d fun _ => rfl
    · intro grandparent hgrandparent
      obtain ⟨-, hsuitable⟩ := hwf.suitable_base hfound hgrandparent
      exact ⟨hrecord, hvariant ▸ hsuitable⟩
    · intro field hfield
      have hown : field ∈ (d.mapRecord fun own =>
          { own with fields := b.fields ++ own.fields }).fields := hfield
      rw [TypeDefinition.fields_mapRecord (g := fun own => b.fields ++ own) (fun _ => rfl) hrecord]
        at hown
      rcases List.mem_append.mp hown with hmem | hmem
      · exact hwf.fields base field (by rwa [ownFields_of_get? hfound])
      · exact hwf.fields record field (by rwa [ownFields_of_get? hd])
  · intro handle _
    rw [allFieldNames, hallFields]
    exact hwf.names handle
  · intro handle _ field hfield
    rw [hallFields] at hfield
    exact Or.inl ⟨field, hfield, rfl⟩
  · rw [flatten_eq_modify]
    exact hwf.typeNames_modify fun _ => TypeDefinition.mapRecord_name _ _

end Flatten

end Registry
end LiveSchema
