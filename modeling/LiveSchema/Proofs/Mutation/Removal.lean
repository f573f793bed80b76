import LiveSchema.Proofs.Mutation.Family

/-!
# Roots that lose their type

Deleting a type takes along every root in which the type occurs, in its own type or in that of a value
inside it.  The values that stay do not meet the type, so they go on conforming.
-/

namespace LiveSchema
namespace Registry

variable {registry : Registry} {handle : TypeHandle} {reference : TypeReference} {value : Json}

/-- Every value inside a value is visited, at whatever place. -/
theorem exists_visit_of_within {type found : TypeReference} {inner held : Json}
    (hinside : registry.Inside reference value type inner)
    (hwithin : registry.Within type inner found held) (path : ValuePath) :
    ∃ visit ∈ registry.visitsFrom path reference value, visit.type = found := by
  induction hwithin generalizing path reference value with
  | self type inner =>
      obtain ⟨child, hchild, rfl, rfl⟩ := hinside
      refine ⟨⟨child.type, path.push child.segment, child.value⟩, ?_, rfl⟩
      exact mem_visitsFrom.mpr ⟨child, hchild, Or.inl rfl⟩
  | inside hnext _ ih =>
      obtain ⟨child, hchild, rfl, rfl⟩ := hinside
      obtain ⟨visit, hvisit, hsame⟩ := ih hnext (path.push child.segment)
      exact ⟨visit, mem_visitsFrom.mpr ⟨child, hchild, Or.inr hvisit⟩, hsame⟩

/-- Every value that is visited lies inside the value. -/
theorem within_of_mem_visitsFrom {visit : Visit} {path : ValuePath}
    (h : visit ∈ registry.visitsFrom path reference value) :
    registry.Within reference value visit.type visit.value := by
  induction path, reference, value using visitsFrom.induct registry with
  | case1 path reference value ih =>
      obtain ⟨child, hchild, hvisit⟩ := mem_visitsFrom.mp h
      have hinside : registry.Inside reference value child.type child.value :=
        ⟨child, hchild, rfl, rfl⟩
      rcases hvisit with rfl | hdeeper
      · exact .inside hinside (.self _ _)
      · exact .inside hinside (ih child hchild hdeeper)

/-- A type that a value does not contain occurs in no type inside it. -/
theorem everywhere_of_containsType
    (h : registry.containsType reference value handle = false) :
    registry.Everywhere (fun type _ => type.mentions handle = false) reference value := by
  rw [containsType, Bool.or_eq_false_iff, List.any_eq_false] at h
  intro type inner hwithin
  cases hwithin with
  | self _ _ => exact h.1
  | inside hinside hrest =>
      obtain ⟨visit, hvisit, rfl⟩ := exists_visit_of_within hinside hrest .root
      exact eq_false_of_ne_true (h.2 visit hvisit)

theorem containsType_of_everywhere
    (h : registry.Everywhere (fun type _ => type.mentions handle = false) reference value) :
    registry.containsType reference value handle = false := by
  rw [containsType, Bool.or_eq_false_iff, List.any_eq_false]
  refine ⟨h.here, fun visit hvisit => ?_⟩
  rw [h _ _ (within_of_mem_visitsFrom hvisit)]
  exact Bool.false_ne_true

/-- The type of a child is an argument of the outer type, or that of one of its fields. -/
theorem type_of_mem_childValues {child : Child}
    (h : child ∈ registry.childValues reference value) :
    TemplateArgument.type child.type ∈ reference.arguments ∨
      ∃ field ∈ registry.allFields reference.handle, field.type = child.type := by
  cases hasChild_of_mem_childValues h with
  | field hfield hheld => exact Or.inr ⟨_, hfield, rfl⟩
  | payload halternative =>
      obtain ⟨index, -, hargument⟩ := Option.bind_eq_some_iff.mp halternative
      exact Or.inl (TypeReference.mem_of_typeArgument? hargument)
  | item hargument | pointee hargument | mapKey hargument | mapValue hargument =>
      exact Or.inl (TypeReference.mem_of_typeArgument? hargument)

/-- Where no other definition mentions a type, only a type that mentions it has parts that do. -/
theorem WellFormed.not_mentions_inside (hwf : registry.WellFormed)
    (hunused : registry.Unused handle) (hfree : reference.mentions handle = false)
    {type : TypeReference} {inner : Json} (h : registry.Inside reference value type inner) :
    type.mentions handle = false := by
  by_contra hmentions
  rw [Bool.not_eq_false] at hmentions
  obtain ⟨child, hchild, rfl, rfl⟩ := h
  rcases type_of_mem_childValues hchild with hargument | ⟨field, hfield, hsame⟩
  · exact absurd ((TypeReference.mentions_of_mem hargument hmentions).symm.trans hfree) (by simp)
  · rw [← hsame] at hmentions
    obtain ⟨owner, hextends, hown⟩ := (mem_allFields_iff hwf.inheritance).mp hfield
    obtain ⟨definition, hfound, -, hmem⟩ := get?_of_mem_ownFields hown
    by_cases howner : owner = handle
    · have hhead := TypeReference.mentions_head reference
      have hsame : reference.handle = handle :=
        hwf.eq_of_extends_unused hunused (howner ▸ hextends)
      rw [hsame] at hhead
      exact absurd (hhead.symm.trans hfree) (by simp)
    · have hnone := (hunused owner definition howner hfound).1 field hmem
      exact absurd (hmentions.symm.trans hnone) (by simp)

/-- Where no other definition mentions a type, a value contains it just if the outer type mentions
it. -/
theorem WellFormed.containsType_eq_mentions (hwf : registry.WellFormed)
    (hunused : registry.Unused handle) (reference : TypeReference) (value : Json) :
    registry.containsType reference value handle = reference.mentions handle := by
  cases hmentions : reference.mentions handle with
  | true => rw [containsType, hmentions, Bool.true_or]
  | false =>
      refine containsType_of_everywhere fun type inner hwithin => ?_
      induction hwithin with
      | self _ _ => exact hmentions
      | inside hinside _ ih => exact ih (hwf.not_mentions_inside hunused hmentions hinside)

/-- What does not meet a deleted type looks as before. -/
theorem WellFormed.alike_remove (hwf : registry.WellFormed) (hunused : registry.Unused handle)
    {other : TypeHandle} {definition : TypeDefinition}
    (hfound : registry.get? handle = some definition) (huser : definition.isBuiltin = false)
    (hne : other ≠ handle) : Alike registry (registry.remove handle) other := by
  have hafter := hwf.remove hfound huser hunused
  have hagree : AgreeApart registry (registry.remove handle) handle := by
    refine ⟨fun a ha => ?_, fun a ha => ?_⟩
    · rw [baseOf?, baseOf?, get?_remove, if_neg ha]
    · rw [ownFields_eq, ownFields_eq, get?_remove, if_neg ha]
  have hout : ¬ registry.Extends other handle := fun h =>
    hne (hwf.eq_of_extends_unused hunused h)
  refine ⟨?_, ?_⟩
  · rw [kind?, kind?, get?_remove, if_neg hne]
  · rw [slots, slots, hagree.allFields_of_not_extends hwf.inheritance hafter.inheritance hout]

theorem WellFormed.conforms_remove (hwf : registry.WellFormed) (hunused : registry.Unused handle)
    {definition : TypeDefinition} (hfound : registry.get? handle = some definition)
    (huser : definition.isBuiltin = false)
    (hfree : registry.containsType reference value handle = false)
    (h : registry.conforms reference value = true) :
    (registry.remove handle).conforms reference value = true := by
  refine conforms_of_alike (registry.Everywhere fun type _ => type.mentions handle = false)
    ?_ ?_ reference value (everywhere_of_containsType hfree) h
  · intro type inner hmet
    refine hwf.alike_remove hunused hfound huser fun hsame => ?_
    have hmentions := TypeReference.mentions_head type
    rw [hsame] at hmentions
    exact absurd (hmentions.symm.trans hmet.here) (by simp)
  · intro type inner deeper held hmet hinside
    exact hmet.inside hinside

end Registry

namespace Content

variable {content : Content} {handle : TypeHandle} {store name : String}

/-- Exactly the roots that are named are removed. -/
theorem root?_removeRoots (registry : Registry) (stores : Stores)
    (names : List (String × String)) (store name : String) :
    Stores.root? (removeRoots registry stores names).2 store name =
      if (store, name) ∈ names then none else stores.root? store name := by
  induction names generalizing stores with
  | nil => simp [removeRoots]
  | cons first rest ih =>
      obtain ⟨firstStore, firstName⟩ := first
      have hgone : stores.root? firstStore firstName = none →
          (if (store, name) ∈ rest then none else stores.root? store name) =
            if (store, name) ∈ (firstStore, firstName) :: rest then none
              else stores.root? store name := by
        intro hnone
        by_cases hrest : (store, name) ∈ rest
        · simp [hrest]
        · by_cases hfirst : (store, name) = (firstStore, firstName)
          · obtain ⟨rfl, rfl⟩ := Prod.mk.inj hfirst
            simp [hnone]
          · simp [hrest, hfirst]
      rw [removeRoots]
      cases hkept : stores.get? firstStore with
      | none =>
          simp only
          rw [ih, hgone (by rw [Stores.root?, hkept, Option.bind_none])]
      | some kept =>
          simp only
          cases hroot : NameMap.get? kept firstName with
          | none =>
              simp only
              rw [ih, hgone (by rw [Stores.root?, hkept, Option.bind_some, hroot])]
          | some removed =>
              simp only
              rw [ih, Stores.root?_insert, NameMap.get?_erase]
              by_cases hstore : firstStore = store
              · subst hstore
                rw [if_pos rfl, Stores.root?, hkept, Option.bind_some]
                by_cases hname : firstName = name
                · simp [hname]
                · simp [hname, Ne.symm hname]
              · simp [hstore, Ne.symm hstore]

/-- The roots that hold data of a type, store by store. -/
theorem dataRoots_usages (content : Content) (handle : TypeHandle) :
    dataRoots (content.usages handle) = content.stores.entries.flatMap fun entry =>
      (entry.2.mentions content.registry handle).map fun root => (entry.1, root) := by
  have hblocking : ∀ others : List TypeHandle,
      dataRoots (others.flatMap (content.usagesBy handle)) = [] := by
    intro others
    refine List.flatMap_eq_nil_iff.mpr fun usage husage => ?_
    obtain ⟨other, -, hby⟩ := List.mem_flatMap.mp husage
    have hkind := isBlocking_of_mem_usagesBy hby
    cases usage with
    | data => exact absurd hkind (by simp [Usage.isBlocking])
    | field | base => rfl
  have hstored : ∀ entries : List (String × Store),
      dataRoots (entries.filterMap fun entry =>
        let roots := entry.2.mentions content.registry handle
        if roots = [] then none else some (.data entry.1 roots)) =
      entries.flatMap fun entry =>
        (entry.2.mentions content.registry handle).map fun root => (entry.1, root) := by
    intro entries
    induction entries with
    | nil => rfl
    | cons entry rest ih =>
        rw [List.filterMap_cons, List.flatMap_cons, ← ih]
        by_cases hnone : entry.2.mentions content.registry handle = []
        · simp [hnone]
        · simp [hnone, dataRoots]
  unfold usages
  rw [← hstored]
  exact List.flatMap_append.trans (by rw [← dataRoots, hblocking, List.nil_append]; rfl)

/-- Exactly the roots that contain a type go with it. -/
theorem mem_dataRoots : (store, name) ∈ dataRoots (content.usages handle) ↔
    ∃ root, content.stores.root? store name = some root ∧
      content.registry.containsType root.type root.value handle = true := by
  rw [dataRoots_usages, List.mem_flatMap]
  constructor
  · rintro ⟨⟨found, kept⟩, hkept, hname⟩
    obtain ⟨other, hother, hsame⟩ := List.mem_map.mp hname
    obtain ⟨rfl, rfl⟩ := Prod.mk.inj hsame
    obtain ⟨⟨key, root⟩, hroot, rfl⟩ := List.mem_map.mp hother
    obtain ⟨hroot, hcontains⟩ := List.mem_filter.mp hroot
    exact ⟨root, Stores.root?_eq_some_iff.mpr
      ⟨kept, NameMap.get?_eq_some_iff.mpr hkept, NameMap.get?_eq_some_iff.mpr hroot⟩, hcontains⟩
  · rintro ⟨root, hroot, hcontains⟩
    obtain ⟨kept, hkept, hname⟩ := Stores.root?_eq_some_iff.mp hroot
    refine ⟨(store, kept), NameMap.get?_eq_some_iff.mp hkept, List.mem_map.mpr ⟨name, ?_, rfl⟩⟩
    refine List.mem_map.mpr ⟨(name, root), List.mem_filter.mpr ⟨?_, hcontains⟩, rfl⟩
    exact NameMap.get?_eq_some_iff.mp hname

/-- Each root is named once. -/
theorem nodup_dataRoots (content : Content) (handle : TypeHandle) :
    (dataRoots (content.usages handle)).Nodup := by
  rw [dataRoots_usages, List.nodup_flatMap]
  constructor
  · intro entry _
    refine List.Nodup.map (fun _ _ hsame => (Prod.mk.inj hsame).2) ?_
    exact (NameMap.nodup_names entry.2).sublist (List.filter_sublist.map _)
  · refine (List.pairwise_map.mp (NameMap.nodup_names content.stores)).imp fun hne => ?_
    refine List.disjoint_left.mpr fun place hfirst hsecond => ?_
    obtain ⟨_, -, rfl⟩ := List.mem_map.mp hfirst
    obtain ⟨_, -, hsame⟩ := List.mem_map.mp hsecond
    exact hne (congrArg Prod.fst hsame).symm

/-- Every root that is removed is listed once, as it was. -/
theorem removeRoots_fst (registry : Registry) (stores : Stores) {names : List (String × String)}
    (hnodup : names.Nodup) :
    (removeRoots registry stores names).1 = names.filterMap fun entry =>
      (stores.root? entry.1 entry.2).map (removedRootJson registry entry.1 entry.2) := by
  induction names generalizing stores with
  | nil => rfl
  | cons first rest ih =>
      obtain ⟨store, name⟩ := first
      obtain ⟨hfirst, hrest⟩ := List.nodup_cons.mp hnodup
      rw [removeRoots, List.filterMap_cons, Stores.root?]
      cases hkept : stores.get? store with
      | none => exact ih stores hrest
      | some kept =>
          dsimp only [Option.bind_some]
          cases hroot : NameMap.get? kept name with
          | none => exact ih stores hrest
          | some removed =>
              dsimp only [Option.map_some]
              refine congrArg (_ :: ·) ((ih _ hrest).trans ?_)
              -- the roots that are still to go are not the one that went
              refine List.filterMap_congr fun other hother => ?_
              have hne : (store, name) ≠ other := fun hsame => hfirst (hsame ▸ hother)
              rw [Stores.root?_insert, NameMap.get?_erase]
              split
              next hstore =>
                  rw [if_neg fun hname => hne (Prod.ext hstore hname), Stores.root?, ← hstore, hkept,
                    Option.bind_some]
              next => rfl

end Content
end LiveSchema
