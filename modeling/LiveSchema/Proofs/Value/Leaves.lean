import LiveSchema.Proofs.Value.Replay

/-!
# Changes of values that hold no others

A step of a walk may change only values of types that have nothing inside them.  Then the walk makes of
every value what the changes at all places make of it, whether the value conforms or not, and everything
lies where it lay before.
-/

namespace LiveSchema

/-! ## Fields -/

/-- Changing each field in its place puts the answers in the place of the fields, if no two of them
share a name. -/
theorem Parts.changeEach_fields {change : Child → Json → Json} {f : TypeReference → Json → Json}
    {declared : List Field} {entries met : Entries} {value : Json}
    (hnodup : (declared.map Field.name).Nodup)
    (hmet : ∀ field ∈ declared, Entries.value? met field.name = Entries.value? entries field.name)
    (hanswer : ∀ child ∈ (fields declared entries).children value,
      change child child.value = f child.type child.value) :
    Child.changeEach change ((fields declared entries).children value) (.object met) =
      .object (mapFields f met declared) := by
  induction declared generalizing met with
  | nil => rfl
  | cons field rest ih =>
      obtain ⟨hnot, hrest⟩ := List.nodup_cons.mp hnodup
      obtain ⟨hfield, hothers⟩ := List.forall_mem_cons.mp hmet
      simp only [children, List.filterMap_cons] at hanswer ih ⊢
      rw [mapFields, hfield]
      cases hvalue : Entries.value? entries field.name with
      | none =>
          simp only [hvalue, Option.map_none] at hanswer ⊢
          exact ih hrest hothers hanswer
      | some inner =>
          simp only [hvalue, Option.map_some, List.forall_mem_cons] at hanswer ⊢
          obtain ⟨hfirst, hanswers⟩ := hanswer
          rw [Child.changeEach, List.foldl_cons, PathSegment.modify, Json.modifyEntry,
            Entries.modify, hfield, hvalue]
          simp only [hfirst]
          refine ih hrest (fun other hother => ?_) hanswers
          have hne : field.name ≠ other.name := fun hsame =>
            hnot (hsame ▸ List.mem_map_of_mem hother)
          rw [Entries.value?_assign, if_neg hne, hothers other hother]

/-- No step is closed. -/
def noBarrier : Barrier := fun _ _ => false

namespace Registry

variable {registry other : Registry} {reference : TypeReference} {value : Json}
  {f : TypeReference → Json → Json} {change : TypeReference → Json → Json → Json}

theorem openChildren_noBarrier :
    registry.openChildren noBarrier reference value = registry.childValues reference value :=
  List.filter_eq_self.mpr fun _ _ => rfl

/-- Without a barrier, the values that are reached are those that are visited. -/
theorem reached_noBarrier (path : ValuePath) (reference : TypeReference) (value : Json) :
    (registry.reached noBarrier reference value).map (Visit.under path) =
      ⟨reference, path, value⟩ :: registry.visitsFrom path reference value := by
  induction reference, value using registry.child_induction generalizing path with
  | step reference value ih =>
      rw [reached_eq, openChildren_noBarrier, List.map_cons, Visit.under_here, List.map_flatMap,
        visitsFrom_eq]
      refine congrArg _ (List.flatMap_congr fun child hchild => ?_)
      rw [← ih child hchild, List.map_map]
      exact List.map_congr_left fun visit _ => (Visit.under_push path child.segment visit).symm

theorem reached_eq_cons_visits (registry : Registry) (reference : TypeReference) (value : Json) :
    registry.reached noBarrier reference value =
      ⟨reference, .root, value⟩ :: registry.visits reference value := by
  have hreached := registry.reached_noBarrier .root reference value
  rwa [show Visit.under .root = id from funext Visit.under_root, List.map_id] at hreached

/-- Types that have the same values inside them reach the same. -/
theorem reached_congr {closed : Barrier}
    (hparts : ∀ reference value, other.parts reference value = registry.parts reference value)
    (reference : TypeReference) (value : Json) :
    other.reached closed reference value = registry.reached closed reference value := by
  induction reference, value using registry.child_induction with
  | step reference value ih =>
      have hopen : other.openChildren closed reference value =
          registry.openChildren closed reference value := by
        rw [openChildren, openChildren, childValues, childValues, hparts]
      rw [reached_eq, reached_eq, hopen]
      refine congrArg _ (List.flatMap_congr fun child hchild => ?_)
      rw [ih child (mem_openChildren.mp hchild).1]

/-- Changing each child in its place puts the answers in the place of the children, also in records
whose fields have distinct names. -/
theorem changeEach_childValues_of_names {change : Child → Json → Json}
    (hnames : (registry.allFieldNames reference.handle).Nodup)
    (hanswer : ∀ child ∈ registry.childValues reference value,
      change child child.value = f child.type child.value) :
    Child.changeEach change (registry.childValues reference value) value =
      (registry.parts reference value).mapChildren f value := by
  by_cases hfields : ∃ declared entries, registry.parts reference value = .fields declared entries
  · obtain ⟨declared, entries, hparts⟩ := hfields
    have hwhole := registry.whole_parts reference value
    rw [hparts, Parts.whole] at hwhole
    rw [childValues, hparts] at hanswer ⊢
    rw [allFieldNames, ← eq_allFields_of_parts hparts] at hnames
    have heach := Parts.changeEach_fields hnames (fun _ _ => rfl) hanswer
    rwa [hwhole] at heach
  · exact changeEach_childValues (fun _ _ hparts => hfields ⟨_, _, hparts⟩) hanswer

theorem mapChildren_congr {g : TypeReference → Json → Json}
    (hnames : (registry.allFieldNames reference.handle).Nodup)
    (h : ∀ child ∈ registry.childValues reference value,
      f child.type child.value = g child.type child.value) :
    (registry.parts reference value).mapChildren f value =
      (registry.parts reference value).mapChildren g value := by
  have heach : Child.changeEach (fun child => g child.type) (registry.childValues reference value)
      value = (registry.parts reference value).mapChildren f value :=
    changeEach_childValues_of_names hnames fun child hchild => (h child hchild).symm
  rw [← heach]
  exact changeEach_childValues_of_names hnames fun _ _ => rfl

/-- A walk without a bound comes to one end only. -/
theorem Walks.unique (hnames : ∀ handle, (registry.allFieldNames handle).Nodup) {first second : Json}
    (hfirst : registry.Walks f reference value first)
    (hsecond : registry.Walks f reference value second) : first = second := by
  induction hfirst generalizing second with
  | through answer _ ih =>
      cases hsecond with
      | through other hother =>
          refine mapChildren_congr (hnames _) fun child hchild => ?_
          have hinside : registry.Inside _ _ child.type child.value := ⟨child, hchild, rfl, rfl⟩
          exact ih _ _ hinside (hother _ _ hinside)

/-! ## Changes of leaves -/

/-- The function changes only values of types that have nothing inside them, and makes no value null. -/
structure ChangesLeaves (registry : Registry) (f : TypeReference → Json → Json) : Prop where
  leaf : ∀ type inner, f type inner = inner ∨ ∀ value, registry.parts type value = .none
  null : ∀ type inner, (f type inner).isNull = inner.isNull

theorem isNull_mapChildren
    (hnull : ∀ child ∈ registry.childValues reference value,
      (f child.type child.value).isNull = child.value.isNull) :
    ((registry.parts reference value).mapChildren f value).isNull = value.isNull := by
  have hwhole := registry.whole_parts reference value
  unfold childValues at hnull
  cases hparts : registry.parts reference value with
  | none => rfl
  | pointee target =>
      rw [hparts] at hnull
      exact hnull _ (List.mem_singleton_self _)
  | _ =>
      rw [hparts] at hwhole
      rw [← hwhole]
      rfl

section ChangesLeaves

variable (hleaves : registry.ChangesLeaves f)
  (hnames : ∀ handle, (registry.allFieldNames handle).Nodup)
  (hchange : ∀ type inner, change type inner inner = f type inner)

include hleaves hnames hchange

/-- The changes make of a value what they make of everything directly inside it, or they change just
the value itself. -/
theorem ChangesLeaves.replay_eq (reference : TypeReference) (value : Json) :
    registry.replay noBarrier change reference value value =
        (registry.parts reference value).mapChildren
          (fun type inner => registry.replay noBarrier change type inner inner) value ∧
        f reference value = value ∨
      registry.replay noBarrier change reference value value = f reference value ∧
        ∀ inner, registry.parts reference inner = .none := by
  rw [Registry.replay_eq, hchange, openChildren_noBarrier]
  rcases hleaves.leaf reference value with hsame | hleaf
  · rw [hsame]
    exact Or.inl ⟨changeEach_childValues_of_names (hnames _) fun _ _ => rfl, rfl⟩
  · rw [childValues, hleaf]
    exact Or.inr ⟨rfl, hleaf⟩

/-- A walk that is deep enough makes of a value what the changes make of it. -/
theorem ChangesLeaves.mapWithin_eq {bound : Nat} (hnesting : registry.nesting ≤ bound)
    (levels : Nat) (hreference : reference.depth ≤ bound)
    (hextent : extent bound reference value ≤ levels) :
    registry.mapWithin f (levels + 1) reference (f reference value) =
      registry.replay noBarrier change reference value value := by
  induction levels generalizing reference value with
  | zero => exact absurd (extent_pos bound reference value) (Nat.not_lt.mpr hextent)
  | succ levels ih =>
      rw [mapWithin]
      rcases hleaves.replay_eq hnames hchange reference value with
        ⟨hreplay, hsame⟩ | ⟨hreplay, hleaf⟩
      · rw [hreplay, hsame]
        refine mapChildren_congr (hnames _) fun child hchild => ?_
        have hinside : registry.Inside reference value child.type child.value :=
          ⟨child, hchild, rfl, rfl⟩
        have hdepth := hinside.type_depth_le hnesting hreference
        have hless := hinside.extent_lt hdepth
        exact ih hdepth (by omega)
      · rw [hreplay, hleaf]
        rfl

/-- The changes leave null what was null. -/
theorem ChangesLeaves.isNull_replay :
    (registry.replay noBarrier change reference value value).isNull = value.isNull := by
  induction reference, value using registry.child_induction with
  | step reference value ih =>
      rcases hleaves.replay_eq hnames hchange reference value with
        ⟨hreplay, -⟩ | ⟨hreplay, -⟩
      · rw [hreplay]
        exact isNull_mapChildren ih
      · rw [hreplay, hleaves.null]

/-- After the changes, everything lies where it lay before. -/
theorem ChangesLeaves.reached_replay :
    registry.reached noBarrier reference (registry.replay noBarrier change reference value value) =
      (registry.reached noBarrier reference value).map fun visit =>
        { visit with
          value := registry.replay noBarrier change visit.type visit.value visit.value } := by
  induction reference, value using registry.child_induction with
  | step reference value ih =>
      have hchildren : registry.childValues reference
          (registry.replay noBarrier change reference value value) =
            (registry.childValues reference value).map (Child.answer fun type inner =>
              registry.replay noBarrier change type inner inner) := by
        rcases hleaves.replay_eq hnames hchange reference value with
          ⟨hreplay, -⟩ | ⟨-, hleaf⟩
        · rw [hreplay]
          refine (childValues_mapChildren (hnames _)).resolve_right ?_
          rintro ⟨-, child, -, hnotNull, hnull⟩
          rw [hleaves.isNull_replay hnames hchange, hnotNull] at hnull
          exact absurd hnull (by simp)
        · rw [childValues, childValues, hleaf, hleaf]
          rfl
      rw [reached_eq, reached_eq registry noBarrier reference value, List.map_cons,
        openChildren_noBarrier, openChildren_noBarrier, hchildren, List.flatMap_map,
        List.map_flatMap]
      refine congrArg _ (List.flatMap_congr fun child hchild => ?_)
      simp only [Child.answer, ih child hchild, List.map_map]
      rfl

end ChangesLeaves
end Registry
end LiveSchema
