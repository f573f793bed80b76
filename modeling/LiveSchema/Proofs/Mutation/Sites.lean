import LiveSchema.Proofs.Mutation.Migration

/-!
# Places in the stores

A migration goes through the roots of all stores in the order of their names.  `Stores.sites` lists what
is listed for each root, together with its place.  Where the step of a migration replays a list of
changes, the migration makes of every root what the changes make of it, and counts and keeps what they
list.
-/

namespace LiveSchema

universe u

variable {σ : Type u}

/-- A value in the stores, and where it lies. -/
structure Site where
  place : Place
  type : TypeReference
  value : Json

namespace Stores

variable {stores : Stores} {registry : Registry} {strict : Prop}

/-- What is listed for the roots of all stores, in the order of the stores and the roots. -/
def sites (stores : Stores) (visitsOf : Root → List Visit) : List Site :=
  stores.entries.flatMap fun (store, kept) => (NameMap.entries kept).flatMap fun (name, root) =>
    (visitsOf root).map fun visit => ⟨⟨store, name, visit.path⟩, visit.type, visit.value⟩

theorem mem_sites {visitsOf : Root → List Visit} {site : Site} :
    site ∈ stores.sites visitsOf ↔
      ∃ root, stores.root? site.place.store site.place.root = some root ∧
        ⟨site.type, site.place.path, site.value⟩ ∈ visitsOf root := by
  constructor
  · intro h
    obtain ⟨⟨store, kept⟩, hstore, h⟩ := List.mem_flatMap.mp h
    obtain ⟨⟨name, root⟩, hroot, h⟩ := List.mem_flatMap.mp h
    obtain ⟨visit, hvisit, rfl⟩ := List.mem_map.mp h
    exact ⟨root, Option.bind_eq_some_iff.mpr
      ⟨kept, NameMap.get?_eq_some_iff.mpr hstore, NameMap.get?_eq_some_iff.mpr hroot⟩, hvisit⟩
  · rintro ⟨root, hroot, hvisit⟩
    obtain ⟨kept, hkept, hroot⟩ := Option.bind_eq_some_iff.mp hroot
    exact List.mem_flatMap.mpr ⟨(_, kept), NameMap.get?_eq_some_iff.mp hkept, List.mem_flatMap.mpr
      ⟨(_, root), NameMap.get?_eq_some_iff.mp hroot, List.mem_map.mpr ⟨_, hvisit, rfl⟩⟩⟩

theorem sites_congr {first second : Root → List Visit}
    (h : stores.EveryRoot fun root => SameItems strict (first root) (second root)) :
    SameItems strict (stores.sites first) (stores.sites second) := by
  rw [everyRoot_iff] at h
  refine (SameItems.of_eq rfl).flatMap fun (store, kept) hstore => ?_
  refine (SameItems.of_eq rfl).flatMap fun (name, root) hroot => ?_
  exact (h store kept hstore name root hroot).map _

/-- The stores with every root changed. -/
def mapRoots (stores : Stores) (f : Root → Root) : Stores :=
  NameMap.mapValues stores fun _ kept => NameMap.mapValues kept fun _ root => f root

theorem root?_mapRoots (f : Root → Root) (store name : String) :
    (stores.mapRoots f).root? store name = (stores.root? store name).map f := by
  rw [root?, root?, mapRoots, NameMap.get?_mapValues]
  cases stores.get? store with
  | none => rfl
  | some kept => exact NameMap.get?_mapValues kept _ name

theorem contains_mapRoots (f : Root → Root) (store : String) :
    (stores.mapRoots f).contains store = stores.contains store := by
  rw [NameMap.contains, mapRoots, NameMap.get?_mapValues, Option.isSome_map, NameMap.contains]

end Stores

/-! ## What can be reached -/

/-- The values of matching types in a root that lie behind no closed step, outermost first. -/
def Registry.reachedIn (registry : Registry) (closed : Barrier) (concerned : TypeReference → Bool)
    (root : Root) : List Visit :=
  Visit.concerning concerned (registry.reached closed root.type root.value)

/-- Where the type of a root matters and no type inside does, the root is all that can be reached. -/
theorem Registry.reachedIn_eq_singleton {registry : Registry} {closed : Barrier}
    {concerned : TypeReference → Bool} {root : Root} (hconcerned : concerned root.type = true)
    (hinside : ∀ child ∈ registry.childValues root.type root.value,
      registry.Everywhere (fun type _ => concerned type = false) child.type child.value) :
    registry.reachedIn closed concerned root = [⟨root.type, .root, root.value⟩] := by
  rw [reachedIn, reached_eq, Visit.concerning_cons, if_pos hconcerned, Visit.concerning_flatMap_under,
    List.flatMap_eq_nil_iff.mpr fun child hchild => ?_]
  rw [concerning_reached_eq_nil (hinside child (mem_openChildren.mp hchild).1), List.map_nil]

namespace Stores

variable {stores : Stores} {registry : Registry} {closed : Barrier}
  {concerned : TypeReference → Bool}

/-- The values of matching types in all roots. -/
def reachedSites (stores : Stores) (registry : Registry) (closed : Barrier)
    (concerned : TypeReference → Bool) : List Site :=
  stores.sites (registry.reachedIn closed concerned)

/-- The stores with all values of matching types changed, one after the other.  The change of a value
may depend on what this value was before anything was changed. -/
def changedAt (stores : Stores) (registry : Registry) (closed : Barrier)
    (concerned : TypeReference → Bool) (change : Json → Json → Json) : Stores :=
  stores.mapRoots fun root =>
    ⟨root.type, (registry.reachedIn closed concerned root).foldl
      (fun value visit => visit.path.modify (change visit.value) value) root.value⟩

theorem reachedSites_single (name : String) (root : Root) :
    (single name root).reachedSites registry closed concerned =
      (registry.reachedIn closed concerned root).map fun visit =>
        ⟨⟨mainStore, name, visit.path⟩, visit.type, visit.value⟩ := by
  change (_ ++ []) ++ [] = _
  rw [List.append_nil, List.append_nil]

/-- Where the root is all that can be reached, it is changed as a whole. -/
theorem changedAt_single {name : String} {root : Root} {change : Json → Json → Json}
    (h : registry.reachedIn closed concerned root = [⟨root.type, .root, root.value⟩]) :
    (single name root).changedAt registry closed concerned change =
      single name ⟨root.type, change root.value root.value⟩ := by
  change single name ⟨root.type, (registry.reachedIn closed concerned root).foldl
    (fun value visit => visit.path.modify (change visit.value) value) root.value⟩ = _
  rw [h]
  rfl

theorem filter_reachedSites (p : TypeReference → Bool) :
    (stores.reachedSites registry closed concerned).filter (fun site => p site.type) =
      stores.reachedSites registry closed fun type => concerned type && p type := by
  unfold reachedSites sites
  rw [List.filter_flatMap]
  refine List.flatMap_congr fun (store, kept) _ => ?_
  rw [List.filter_flatMap]
  refine List.flatMap_congr fun (name, root) _ => ?_
  simp only [List.filter_map, Registry.reachedIn, Visit.concerning, ← List.filter_filter]
  rw [List.filter_comm]
  rfl

theorem mem_reachedSites {site : Site} (h : site ∈ stores.reachedSites registry closed concerned) :
    ∃ root, stores.root? site.place.store site.place.root = some root ∧
      registry.Within root.type root.value site.type site.value ∧
      site.place.path.resolve? root.value = some site.value ∧ concerned site.type = true := by
  obtain ⟨root, hroot, hvisit⟩ := mem_sites.mp h
  obtain ⟨hreached, hconcerned⟩ := List.mem_filter.mp hvisit
  exact ⟨root, hroot, Registry.within_of_mem_reached hreached,
    Registry.resolve?_of_mem_reached hreached, hconcerned⟩

end Stores

/-! ## Stores that are the same -/

/-- The roots have one type, and their values are alike. -/
structure Root.Like (strict : Prop) (first second : Root) : Prop where
  type : first.type = second.type
  value : Json.Like strict first.value second.value

namespace Stores

variable {stores first second : Stores} {strict : Prop}

/-- The stores have the same names, and so have the roots in them; the roots are alike. -/
structure Like (strict : Prop) (first second : Stores) : Prop where
  contains : ∀ store, first.contains store = second.contains store
  roots : ∀ store name,
    Option.Rel (Root.Like strict) (first.root? store name) (second.root? store name)

/-- The stores hold the same values, but for the order of entries. -/
abbrev Same : Stores → Stores → Prop :=
  Like False

theorem Like.refl (strict : Prop) (stores : Stores) : Like strict stores stores := by
  refine ⟨fun _ => rfl, fun store name => ?_⟩
  cases stores.root? store name with
  | none => exact .none
  | some root => exact .some ⟨rfl, .refl root.value⟩

theorem Like.exists_root? (h : Like strict first second) {store name : String} {root : Root}
    (hroot : second.root? store name = some root) :
    ∃ other, first.root? store name = some other ∧ Root.Like strict other root := by
  have hrel := h.roots store name
  rw [hroot] at hrel
  generalize first.root? store name = found at hrel ⊢
  obtain ⟨hlike⟩ := hrel
  exact ⟨_, rfl, hlike⟩

theorem Like.eq (h : Like True first second) : first = second := by
  refine NameMap.ext_get? fun store => ?_
  have hcontains := h.contains store
  have hroots := h.roots store
  unfold NameMap.contains at hcontains
  unfold root? at hroots
  cases hfirst : first.get? store with
  | none =>
      rw [hfirst] at hcontains
      exact (Option.not_isSome_iff_eq_none.mp (by simp [← hcontains])).symm
  | some kept =>
      rw [hfirst] at hcontains hroots
      obtain ⟨other, hsecond⟩ := Option.isSome_iff_exists.mp hcontains.symm
      rw [hsecond] at hroots ⊢
      refine congrArg some (NameMap.ext_get? fun name => ?_)
      have hrel := hroots name
      rw [Option.bind_some, Option.bind_some] at hrel
      revert hrel
      generalize NameMap.get? kept name = left
      generalize NameMap.get? other name = right
      rintro (⟨hroot⟩ | _)
      · exact congrArg₂ (fun type value => some (Root.mk type value)) hroot.type hroot.value.eq
      · rfl

theorem mapRoots_id : stores.mapRoots id = stores := by
  refine Like.eq ⟨contains_mapRoots id, fun store name => ?_⟩
  rw [root?_mapRoots, Option.map_id, id]
  cases stores.root? store name with
  | none => exact .none
  | some root => exact .some ⟨rfl, .refl root.value⟩

theorem like_mapRoots {f g : Root → Root}
    (h : stores.EveryRoot fun root => Root.Like strict (f root) (g root)) :
    Like strict (stores.mapRoots f) (stores.mapRoots g) := by
  refine ⟨fun store => by rw [contains_mapRoots, contains_mapRoots], fun store name => ?_⟩
  rw [root?_mapRoots, root?_mapRoots]
  cases hroot : stores.root? store name with
  | none => exact .none
  | some root => exact .some (h store name root hroot)

end Stores

/-! ## The state of a migration -/

/-- What a migration meets in a root, the root itself first. -/
def Registry.metIn (registry : Registry) (f : TypeReference → Json → Json) (root : Root) :
    List Visit :=
  ⟨root.type, .root, root.value⟩ :: registry.metWithin f
    (registry.walkDepth root.type (f root.type root.value) registry.defaultDepth) root.type
    (f root.type root.value)

theorem Root.migrate_fst {registry : Registry} {concerned : TypeReference → Bool}
    {migration : σ → ValuePath → TypeReference → Json → σ × Json} {g : TypeReference → Json → Json}
    (hplain : ∀ state path type value, (migration state path type value).2 = g type value)
    (hnames : ∀ handle, (registry.allFieldNames handle).Nodup) (state : σ) (root : Root) :
    (root.migrate registry concerned migration state).1 =
      (Visit.concerning concerned (registry.metIn (whereConcerned concerned g) root)).foldl
        (fun state visit => (migration state visit.path visit.type visit.value).1) state := by
  have hstep : (migrationStep concerned migration).Plain (whereConcerned concerned g) :=
    plain_migrationStep hplain
  -- the step passes the state on where the type does not matter
  have hstate : ∀ state (visit : Visit),
      (migrationStep concerned migration state visit.type visit.path visit.value).state =
        if concerned visit.type then (migration state visit.path visit.type visit.value).1
        else state := by
    intro state visit
    unfold migrationStep
    split <;> rfl
  rw [Root.migrate_eq]
  simp only [Registry.revise]
  rw [Registry.reviseWithin_state hstep hnames, (hstep state root.type .root root.value).1,
    Visit.concerning, List.foldl_filter, Registry.metIn, List.foldl_cons]
  have hunder : Visit.under .root = id := funext Visit.under_root
  have hroot := hstate state ⟨root.type, .root, root.value⟩
  simp only at hroot
  simp only [hunder, List.map_id, hstate, hroot]

namespace Stores

variable {stores : Stores} {registry : Registry} {concerned : TypeReference → Bool}
  {g : TypeReference → Json → Json}

/-- The state goes through all values of matching types, in the order of the stores and the roots. -/
theorem migrate_fst {migration : Migration σ}
    (hplain : ∀ state place type value, (migration state place type value).2 = g type value)
    (hnames : ∀ handle, (registry.allFieldNames handle).Nodup) (state : σ) :
    (stores.migrate registry concerned migration state).1 =
      (stores.sites fun root => Visit.concerning concerned
        (registry.metIn (whereConcerned concerned g) root)).foldl
          (fun state site => (migration state site.place site.type site.value).1) state := by
  rw [migrate, NameMap.mapFrom_fst, sites, List.foldl_flatMap]
  refine List.foldl_ext _ _ _ fun state entry _ => ?_
  rw [NameMap.mapFrom_fst, List.foldl_flatMap]
  refine List.foldl_ext _ _ _ fun state inner _ => ?_
  rw [Root.migrate_fst (fun state path type value =>
    hplain state ⟨entry.1, inner.1, path⟩ type value) hnames, List.foldl_map]

end Stores

/-! ## Tallies -/

namespace Tally

theorem backup_add (tally : Tally) (backups : List Backup) :
    (tally.add backups).backup = tally.backup ++ backups := by
  simp [add, backup]

theorem foldl_add (lost : Site → List Backup) (sites : List Site) (tally : Tally) :
    (sites.foldl (fun tally site => tally.add (lost site)) tally).count =
        tally.count + sites.length ∧
      (sites.foldl (fun tally site => tally.add (lost site)) tally).backup =
        tally.backup ++ sites.flatMap lost := by
  induction sites generalizing tally with
  | nil => simp
  | cons site rest ih =>
      obtain ⟨hcount, hbackup⟩ := ih (tally.add (lost site))
      rw [List.foldl_cons, hcount, hbackup, backup_add, List.flatMap_cons, List.append_assoc]
      refine ⟨?_, rfl⟩
      simp only [add, List.length_cons]
      omega

end Tally

namespace Stores

variable {stores : Stores} {before after : Registry} {record : TypeHandle} {strict : Prop}
  {closed : Barrier} {change : Place → TypeHandle → Entries → Entries × List Backup}
  {g : TypeHandle → Entries → Entries} {changeAt : TypeReference → Json → Json → Json}

/-- The backups that a change makes at a place. -/
def backupsAt (change : Place → TypeHandle → Entries → Entries × List Backup) (site : Site) :
    List Backup :=
  match site.value with
  | .object entries => (change site.place site.type.handle entries).2
  | _ => []

/-- The objects of a family that are met are counted, and give their backups in the order in which they
are met. -/
theorem tallyRecords_fst (stores : Stores) (record : TypeHandle)
    (hchange : ∀ place type entries, (change place type entries).1 = g type entries)
    (hnames : ∀ handle, (after.allFieldNames handle).Nodup) :
    let met := stores.sites fun root =>
      Visit.concerning (fun type => after.isParentOf record type.handle)
        (after.metIn (after.reviseFamily record g) root)
    (stores.tallyRecords after record change).1.count = met.length ∧
      (stores.tallyRecords after record change).1.backup = met.flatMap (backupsAt change) := by
  intro met
  have htally : (stores.tallyRecords after record change).1 =
      met.foldl (fun tally site => tally.add (backupsAt change site)) {} := by
    unfold tallyRecords
    rw [migrate_fst (g := onObjects g) (fun _ place type value => ?_) hnames]
    · refine List.foldl_ext _ _ _ fun tally site _ => ?_
      unfold backupsAt
      split <;> simp_all
    · cases value with
      | object entries => exact congrArg Json.object (hchange place type.handle entries)
      | _ => rfl
  obtain ⟨hcount, hbackup⟩ := Tally.foldl_add (backupsAt change) met {}
  rw [htally, hcount, hbackup]
  exact ⟨Nat.zero_add _, rfl⟩

/-- The stores with every root changed where the visits of it lead. -/
def replayed (stores : Stores) (registry : Registry) (closed : Barrier)
    (changeAt : TypeReference → Json → Json → Json) : Stores :=
  stores.mapRoots fun root =>
    ⟨root.type, registry.replay closed changeAt root.type root.value root.value⟩

/-- Where the revision of the objects of a family replays changes in place, the stores become what the
changes make of them, every object is counted once, and each gives its backups. -/
theorem tallyRecords_of_replays
    (hreplays : Registry.Replays strict before after closed
      (fun type => after.isParentOf record type.handle) (after.reviseFamily record g) changeAt)
    (hchange : ∀ place type entries, (change place type entries).1 = g type entries)
    (h : stores.EveryRoot before.ConformingRoot) :
    Like strict (stores.tallyRecords after record change).2
        (stores.replayed before closed changeAt) ∧
      (stores.tallyRecords after record change).1.count =
        (stores.reachedSites before closed
          fun type => after.isParentOf record type.handle).length ∧
      SameItems strict (stores.tallyRecords after record change).1.backup
        ((stores.reachedSites before closed
          fun type => after.isParentOf record type.handle).flatMap (backupsAt change)) := by
  have htracks : stores.EveryRoot fun root =>
      Registry.Tracks strict before after closed (fun type => after.isParentOf record type.handle)
        (after.reviseFamily record g) changeAt
        (after.walkDepth root.type (after.reviseFamily record g root.type root.value)
          after.defaultDepth) root.type root.value :=
    fun store name root hroot => hreplays.walkDepth after.defaultDepth (h store name root hroot)
  have hsites : SameItems strict
      (stores.sites fun root => Visit.concerning (fun type => after.isParentOf record type.handle)
        (after.metIn (after.reviseFamily record g) root))
      (stores.reachedSites before closed fun type => after.isParentOf record type.handle) :=
    sites_congr fun store name root hroot => (htracks store name root hroot).met
  obtain ⟨hcount, hbackup⟩ := tallyRecords_fst stores record hchange hreplays.namesAfter
  refine ⟨?_, ?_, ?_⟩
  · rw [tallyRecords_snd hchange]
    exact like_mapRoots fun store name root hroot => ⟨rfl, (htracks store name root hroot).like⟩
  · rw [hcount, hsites.perm.length_eq]
  · rw [hbackup]
    exact hsites.flatMap fun site _ => .of_eq rfl

end Stores
end LiveSchema
