import LiveSchema.Proofs.Mutation.Conformance
import LiveSchema.Proofs.Mutation.Revision
import LiveSchema.Proofs.Schema.Enumerations
import LiveSchema.Proofs.Value.Leaves

/-!
# Renumbering stored values

Changing or deleting an enumerator changes the stored numbers of its enumeration, all at once, wherever
they lie, and nothing else.
-/

namespace LiveSchema

/-! ## Numbers -/

namespace Stores

variable {mapping : List (Int64 × Int64)} {removed : Option (Int64 × Int64)} {number : Int64}

theorem renumberedValue_ofInt (mapping : List (Int64 × Int64)) (removed : Option (Int64 × Int64))
    (number : Int64) :
    renumberedValue mapping removed (.ofInt number.toInt) =
      .ofInt ((renumbered? mapping removed number.toInt).getD number).toInt := by
  rw [renumberedValue, Json.signed?_ofInt_toInt, Option.bind_some]
  cases renumbered? mapping removed number.toInt with
  | none => rfl
  | some target =>
      simp only [Option.getD_some, Option.some.injEq, Int64.toInt_inj]
      split
      next hsame => rw [hsame]
      next => rfl

theorem isNull_renumberedValue (mapping : List (Int64 × Int64)) (removed : Option (Int64 × Int64))
    (value : Json) : (renumberedValue mapping removed value).isNull = value.isNull := by
  cases hsigned : value.signed? with
  | none => simp [renumberedValue, hsigned]
  | some held =>
      obtain ⟨number, -, rfl⟩ := Json.exists_of_signed? hsigned
      rw [renumberedValue_ofInt, Json.isNull_ofInt_toInt, Json.isNull_ofInt_toInt]

theorem renumbered?_of_not_mem (h : number ∉ mapping.map Prod.fst) :
    renumbered? mapping removed number.toInt =
      (removed.filter fun entry => entry.1 = number).map Prod.snd := by
  have hnone : (mapping.find? fun entry => entry.1.toInt = number.toInt) = none := by
    refine List.find?_eq_none.mpr fun entry hentry hsame => h ?_
    have hsame : entry.1 = number := by simpa [Int64.toInt_inj] using hsame
    exact hsame ▸ List.mem_map_of_mem hentry
  rw [renumbered?, hnone]
  simp only [Int64.toInt_inj]

theorem renumbered?_of_first {position : Nat} {target : Int64}
    (h : mapping[position]? = some (number, target))
    (hfirst : number ∉ (mapping.map Prod.fst).take position) :
    renumbered? mapping removed number.toInt = some target := by
  have hfound : (mapping.find? fun entry => entry.1.toInt = number.toInt) =
      some (number, target) := by
    refine find?_of_first h (by simp) fun other hother => decide_eq_false fun hsame => hfirst ?_
    rw [← List.map_take]
    exact Int64.toInt_inj.mp hsame ▸ List.mem_map_of_mem hother
  rw [renumbered?, hfound]

end Stores

/-- The numbers that are stored for an enumeration follow its enumerators. -/
theorem Enumeration.follows_renumberedValue {old new : Enumeration} {gone : Option Nat}
    (hnames : new.enumerators.map Enumerator.name =
      (leftOf gone old.enumerators).map Enumerator.name) :
    Follows (Stores.renumberedValue ((leftOf gone old.values).zip new.values)
      ((gone.bind (old.values[·]?)).map fun number => (number, new.defaultValue))) old new gone := by
  have hlength : (leftOf gone old.values).length = new.values.length := by
    have hsame := congrArg List.length hnames
    rw [List.length_map, List.length_map, ← length_values] at hsame
    rw [hsame, ← map_snd_numbered old, ← map_fst_numbered old, ← map_leftOf, ← map_leftOf,
      List.length_map, List.length_map]
  have hleft := List.map_fst_zip (Nat.le_of_eq hlength)
  refine ⟨hnames, ?_, ?_, ?_⟩
  · intro position number hnumber hfirst
    obtain ⟨hlt, -⟩ := List.getElem?_eq_some_iff.mp hnumber
    rw [hlength] at hlt
    have htarget := List.getElem?_eq_getElem hlt
    have hpair : ((leftOf gone old.values).zip new.values)[position]? =
        some (number, new.values[position]) :=
      List.getElem?_zip_eq_some.mpr ⟨hnumber, htarget⟩
    rw [← hleft] at hfirst
    refine ⟨_, htarget, ?_⟩
    rw [Stores.renumberedValue_ofInt, Stores.renumbered?_of_first hpair hfirst, Option.getD_some]
  · intro number hgone hnone
    rw [← hleft] at hnone
    rw [Stores.renumberedValue_ofInt, Stores.renumbered?_of_not_mem hnone, hgone]
    simp [Option.filter]
  · intro value hother
    cases hsigned : value.signed? with
    | none => simp [Stores.renumberedValue, hsigned]
    | some held =>
        obtain ⟨number, -, rfl⟩ := Json.exists_of_signed? hsigned
        have hnone : number ∉ old.values := fun hmem => hother number hmem rfl
        have hunmapped : number ∉ ((leftOf gone old.values).zip new.values).map Prod.fst := by
          rw [hleft]
          exact fun hmem => hnone (sublist_leftOf.subset hmem)
        rw [Stores.renumberedValue_ofInt, Stores.renumbered?_of_not_mem hunmapped]
        cases hgone : gone.bind (old.values[·]?) with
        | none => rfl
        | some removed =>
            obtain ⟨index, -, hindex⟩ := Option.bind_eq_some_iff.mp hgone
            have hne : removed ≠ number := by
              rintro rfl
              exact hnone (List.mem_of_getElem? hindex)
            simp [Option.filter, hne]

/-! ## Whole stores -/

section Leaves

variable {registry other : Registry} {stores : Stores} {concerned : TypeReference → Bool}
  {substitute : Json → Json} {closed : Barrier} {change : Json → Json → Json}

namespace Registry

theorem reachedIn_congr
    (hparts : ∀ reference value, other.parts reference value = registry.parts reference value) :
    other.reachedIn closed concerned = registry.reachedIn closed concerned := by
  funext root
  rw [reachedIn, reachedIn, reached_congr hparts]

theorem changesLeaves_whereConcerned
    (hleaf : ∀ type, concerned type = true → ∀ value, registry.parts type value = .none)
    (hnull : ∀ value, (substitute value).isNull = value.isNull) :
    registry.ChangesLeaves (whereConcerned concerned fun _ => substitute) where
  leaf type inner := by
    rw [whereConcerned]
    split
    next hconcerned => exact Or.inr (hleaf type hconcerned)
    next => exact Or.inl rfl
  null type inner := by
    rw [whereConcerned]
    split
    next => exact hnull inner
    next => rfl

theorem changeWhere_self (type : TypeReference) (value : Json) :
    changeWhere concerned (fun held _ => substitute held) type value value =
      whereConcerned concerned (fun _ => substitute) type value := by
  rw [changeWhere, whereConcerned]
  split <;> rfl

/-- What a migration makes of a root, if it changes only values with nothing inside them. -/
theorem ChangesLeaves.revisedRoot_eq {f : TypeReference → Json → Json}
    {changeAt : TypeReference → Json → Json → Json} (hleaves : registry.ChangesLeaves f)
    (hnames : ∀ handle, (registry.allFieldNames handle).Nodup)
    (hchange : ∀ type inner, changeAt type inner inner = f type inner) (root : Root) :
    registry.revisedRoot f root =
      ⟨root.type, registry.replay noBarrier changeAt root.type root.value root.value⟩ := by
  obtain ⟨levels, hlevels, hextent⟩ :=
    registry.exists_walkDepth_eq root.type (f root.type root.value) registry.defaultDepth
  rw [revisedRoot, hlevels]
  refine congrArg (Root.mk root.type) ?_
  rcases hleaves.replay_eq hnames hchange root.type root.value with
    ⟨-, hsame⟩ | ⟨hreplay, hleaf⟩
  · rw [hsame] at hextent
    exact hleaves.mapWithin_eq hnames hchange (Nat.le_max_right _ _) levels (Nat.le_max_left _ _)
      hextent
  · rw [hreplay, mapWithin, hleaf]
    rfl

end Registry

namespace Stores

theorem reachedSites_congr
    (hparts : ∀ reference value, other.parts reference value = registry.parts reference value) :
    stores.reachedSites other closed concerned = stores.reachedSites registry closed concerned := by
  rw [reachedSites, reachedSites, Registry.reachedIn_congr hparts]

theorem changedAt_congr
    (hparts : ∀ reference value, other.parts reference value = registry.parts reference value) :
    stores.changedAt other closed concerned change =
      stores.changedAt registry closed concerned change := by
  rw [changedAt, changedAt, Registry.reachedIn_congr hparts]

/-- Without a barrier, what is reached in a root is the root itself and whatever is visited inside. -/
theorem reachedSites_noBarrier :
    stores.reachedSites registry noBarrier concerned = stores.sites fun root =>
      (⟨root.type, .root, root.value⟩ :: registry.visits root.type root.value).filter
        fun visit => concerned visit.type := by
  refine congrArg stores.sites (funext fun root => ?_)
  have hroot := registry.reached_noBarrier .root root.type root.value
  rw [show Visit.under .root = id from funext Visit.under_root, List.map_id] at hroot
  rw [Registry.reachedIn, Visit.concerning, hroot, Registry.visits]

theorem sites_mapRoots {visitsOf : Root → List Visit} {f : Root → Root} :
    (stores.mapRoots f).sites visitsOf = stores.sites fun root => visitsOf (f root) := by
  simp only [sites, mapRoots, NameMap.mapValues, List.flatMap_map]

variable (hnames : ∀ handle, (registry.allFieldNames handle).Nodup)
  (hleaf : ∀ type, concerned type = true → ∀ value, registry.parts type value = .none)
  (hnull : ∀ value, (substitute value).isNull = value.isNull)

include hnames hleaf hnull

/-- A migration that substitutes values with nothing inside them does so at all places at once. -/
theorem revised_leaves (stores : Stores) :
    stores.revised registry (whereConcerned concerned fun _ => substitute) =
      stores.changedAt registry noBarrier concerned fun value _ => substitute value := by
  rw [← replayed_changeWhere]
  refine congrArg stores.mapRoots (funext fun root => ?_)
  exact (Registry.changesLeaves_whereConcerned hleaf hnull).revisedRoot_eq hnames
    Registry.changeWhere_self root

/-- Afterwards the substitutes lie where the values lay. -/
theorem reachedSites_changedAt_leaves :
    (stores.changedAt registry noBarrier concerned fun value _ => substitute value).reachedSites
        registry noBarrier concerned =
      (stores.reachedSites registry noBarrier concerned).map fun site =>
        { site with value := substitute site.value } := by
  have hleaves := Registry.changesLeaves_whereConcerned hleaf hnull
  rw [← replayed_changeWhere, replayed, reachedSites, sites_mapRoots]
  have hroot : ∀ root : Root, registry.reachedIn noBarrier concerned
      ⟨root.type, registry.replay noBarrier
        (changeWhere concerned fun value _ => substitute value) root.type root.value root.value⟩ =
      (registry.reachedIn noBarrier concerned root).map fun visit =>
        { visit with value := substitute visit.value } := by
    intro root
    rw [Registry.reachedIn, hleaves.reached_replay hnames Registry.changeWhere_self,
      Registry.reachedIn, Visit.concerning, List.filter_map]
    refine List.map_congr_left fun visit hvisit => ?_
    have hconcerned : concerned visit.type = true := (List.mem_filter.mp hvisit).2
    have hreplay : registry.replay noBarrier (changeWhere concerned fun value _ => substitute value)
        visit.type visit.value visit.value = substitute visit.value := by
      rw [Registry.replay_eq, Registry.openChildren_noBarrier, Registry.childValues,
        hleaf _ hconcerned, Registry.changeWhere_self, whereConcerned, if_pos hconcerned]
      rfl
    exact congrArg (Visit.mk visit.type visit.path) hreplay
  simp only [hroot, reachedSites, sites, List.map_flatMap, List.map_map]
  rfl

end Stores
end Leaves

/-! ## Enumerations that change -/

namespace Registry

variable {registry : Registry} {handle : TypeHandle} {definition : TypeDefinition}
  {old : Enumeration} {enumerators : List Enumerator}

/-- What lies inside a value does not depend on enumerators. -/
theorem WellFormed.parts_modifyEnumerators (hwf : registry.WellFormed) (handle : TypeHandle)
    (g : List Enumerator → List Enumerator) (reference : TypeReference) (value : Json) :
    (registry.modifyEnumerators handle g).parts reference value =
      registry.parts reference value := by
  refine parts_congr (hwf.alike_modifyEnumerators g reference.handle).kind ?_
  exact allFields_congr hwf.inheritance
    (baseOf?_modify fun _ => TypeDefinition.mapEnumerators_base _ _)
    fun owner _ => ownFields_modify (fun _ => TypeDefinition.mapEnumerators_fields _ _) owner

theorem enumeration?_modifyEnumerators (enumerators : List Enumerator)
    (hfound : registry.get? handle = some definition)
    (hbody : definition.body = .enumeration old) :
    ((registry.modifyEnumerators handle fun _ => enumerators).get? handle).bind
      TypeDefinition.enumeration? = some ⟨enumerators⟩ := by
  rw [modifyEnumerators, get?_modify_self, hfound, Option.map_some, Option.bind_some,
    TypeDefinition.mapEnumerators, hbody]
  rfl

end Registry

namespace Mutation

variable {mutation : Mutation} {content : Content} {change : Change} {handle : TypeHandle}
  {gone : Option Nat}

/-- The enumeration whose stored numbers a mutation changes, and the position of the enumerator that it
takes out, if it does. -/
def renumbers? : Mutation → Option (TypeHandle × Option Nat)
  | .setEnumeratorValue enumeration _ _ => some (enumeration, none)
  | .deleteEnumerator enumeration index => some (enumeration, some index)
  | _ => none

/-- Stored numbers change along with the enumerators that are left. -/
theorem renumbered_carryOut (hrenumbers : mutation.renumbers? = some (handle, gone))
    (h : mutation.carryOut content = .ok change) :
    ∃ definition, ∃ old new : Enumeration, ∃ registry,
      content.registry.get? handle = some definition ∧ definition.body = .enumeration old ∧
        new.enumerators.map Enumerator.name = (leftOf gone old.enumerators).map Enumerator.name ∧
        registry = content.registry.modifyEnumerators handle (fun _ => new.enumerators) ∧
        change.content = ⟨registry, (content.stores.renumber registry handle
          ((leftOf gone old.values).zip new.values)
          ((gone.bind (old.values[·]?)).map fun number => (number, new.defaultValue))).2⟩ := by
  cases mutation with
  | setEnumeratorValue enumeration index value =>
      obtain ⟨rfl, rfl⟩ := Prod.mk.inj (Option.some.inj hrenumbers)
      obtain ⟨definition, old, new, registry, hfound, hbody, rfl, hregistry, hcontent⟩ :=
        Content.setEnumeratorValue_checked h
      refine ⟨definition, old, _, registry, hfound, hbody, ?_, hregistry, hcontent⟩
      have hnames : ∀ own : Enumerator, Enumerator.name { own with value := value } = own.name :=
        fun _ => rfl
      exact map_modify_of_eq hnames _ _
  | deleteEnumerator enumeration index =>
      obtain ⟨rfl, rfl⟩ := Prod.mk.inj (Option.some.inj hrenumbers)
      obtain ⟨definition, old, new, registry, hfound, hbody, hindex, rfl, hregistry, hcontent⟩ :=
        Content.deleteEnumerator_checked h
      refine ⟨definition, old, _, registry, hfound, hbody, rfl, hregistry, ?_⟩
      rw [← old.length_values] at hindex
      rw [hcontent, Option.bind_some, List.getElem?_eq_getElem hindex]
      rfl
  | _ => exact absurd hrenumbers (by simp [renumbers?])

/-- What becomes of the stored numbers of an enumeration. -/
theorem exists_substitute_carryOut (hwf : content.registry.WellFormed)
    (hrenumbers : mutation.renumbers? = some (handle, gone))
    (h : mutation.carryOut content = .ok change) :
    ∃ old new : Enumeration, ∃ substitute : Json → Json,
      (content.registry.get? handle).bind TypeDefinition.enumeration? = some old ∧
        (change.content.registry.get? handle).bind TypeDefinition.enumeration? = some new ∧
        Enumeration.Follows substitute old new gone ∧
        change.content.stores = content.stores.changedAt content.registry noBarrier
          (fun type => type.handle = handle) (fun value _ => substitute value) ∧
        change.content.stores.reachedSites change.content.registry noBarrier
            (fun type => type.handle = handle) =
          (content.stores.reachedSites content.registry noBarrier
            fun type => type.handle = handle).map fun site =>
              { site with value := substitute site.value } := by
  obtain ⟨definition, old, new, registry, hfound, hbody, hnames, rfl, hcontent⟩ :=
    renumbered_carryOut hrenumbers h
  have hnew := Registry.enumeration?_modifyEnumerators new.enumerators hfound hbody
  have huser := TypeDefinition.isBuiltin_of_enumeration hbody
  have hafter := hwf.modifyEnumerators (fun _ => new.enumerators) hfound huser
  have hparts := hwf.parts_modifyEnumerators handle fun _ => new.enumerators
  have hkind : content.registry.kind? handle = some .enumeration := by
    rw [Registry.kind?_of_get? hfound, hbody]
    rfl
  -- values of the enumeration have nothing inside, before and after
  have hleaf : ∀ type : TypeReference, decide (type.handle = handle) = true →
      ∀ value, (content.registry.modifyEnumerators handle fun _ => new.enumerators).parts type value =
        .none := by
    intro type hconcerned value
    rw [hparts]
    exact Registry.parts_of_enumeration (of_decide_eq_true hconcerned ▸ hkind) value
  have hnull := Stores.isNull_renumberedValue ((leftOf gone old.values).zip new.values)
    ((gone.bind (old.values[·]?)).map fun number => (number, new.defaultValue))
  have hstores := Stores.revised_leaves hafter.names hleaf hnull content.stores
  rw [hcontent]
  refine ⟨old, new, _, Registry.enumeration?_eq_some_iff.mpr ⟨definition, hfound, hbody⟩, hnew,
    Enumeration.follows_renumberedValue hnames, ?_, ?_⟩
  · rw [← Stores.changedAt_congr hparts, ← hstores]
    exact Stores.renumber_snd
  · rw [← Stores.reachedSites_congr hparts, ← Stores.reachedSites_changedAt_leaves hafter.names hleaf
      hnull, ← hstores]
    exact congrArg (fun stores : Stores => stores.reachedSites _ noBarrier _) Stores.renumber_snd

end Mutation
end LiveSchema
