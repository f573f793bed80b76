import LiveSchema.Proofs.Schema.Lookup
import LiveSchema.Schema.Unvisited
import LiveSchema.Value.Default
import Mathlib.Data.List.Nodup
import Mathlib.Data.List.Perm.Subperm
import Mathlib.Data.Nat.Find
import Mathlib.Logic.Relation

/-!
# Ancestors

The declarative side of inheritance: `Registry.DerivesFrom` is one step to a base type and
`Registry.Extends` any number of steps.  The bounded walk of the library decides it on every registry.
Where base types lead in no circle, the ancestors that are listed are exactly these, and the effective
fields of a record are those of its base followed by its own.

New edges from one set into another close no circle in a relation as long as the second set does not
lead to the first; and if only finitely many elements have successors, following a relation without
circles ends.
-/

namespace LiveSchema

open Relation

/-! ## Relations without circles -/

section Relations

variable {α : Type u}

/-- The relation never leads from an element back to it. -/
def Acyclic (r : α → α → Prop) : Prop :=
  ∀ a, ¬ TransGen r a a

theorem Acyclic.mono {r s : α → α → Prop}
    (hr : Acyclic r) (hsub : ∀ a b, s a b → r a b) : Acyclic s := by
  intro a hcircle
  exact hr a (TransGen.mono (fun b c hbc => hsub b c hbc) a a hcircle)

/-- A path that starts where no new edge starts is a path of old edges. -/
theorem reflTransGen_of_new_edges {r s : α → α → Prop} {F T : α → Prop}
    (hedge : ∀ a b, s a b → r a b ∨ F a ∧ T b)
    {a b : α} (hclosed : ∀ c, F c → ¬ ReflTransGen r a c)
    (hpath : ReflTransGen s a b) : ReflTransGen r a b := by
  induction hpath with
  | refl => exact ReflTransGen.refl
  | tail hbefore hstep ih =>
      rcases hedge _ _ hstep with hold | ⟨hsource, -⟩
      · exact ih.tail hold
      · exact absurd ih (hclosed _ hsource)

/-- A path with new edges consists of old ones only, or it has a last new edge. -/
theorem transGen_of_new_edges {r s : α → α → Prop} {F T : α → Prop}
    (hedge : ∀ a b, s a b → r a b ∨ F a ∧ T b)
    {a b : α} (hpath : TransGen s a b) :
    TransGen r a b ∨
      ∃ f t, F f ∧ T t ∧ ReflTransGen s a f ∧ ReflTransGen s t b := by
  induction hpath with
  | single hstep =>
      rcases hedge _ _ hstep with hold | ⟨hsource, htarget⟩
      · exact Or.inl (.single hold)
      · exact Or.inr ⟨_, _, hsource, htarget, .refl, .refl⟩
  | tail hbefore hstep ih =>
      rcases hedge _ _ hstep with hold | ⟨hsource, htarget⟩
      · rcases ih with hpath | ⟨f, t, hf, ht, hto, hfrom⟩
        · exact Or.inl (hpath.tail hold)
        · exact Or.inr ⟨f, t, hf, ht, hto, hfrom.tail hstep⟩
      · exact Or.inr ⟨_, _, hsource, htarget, hbefore.to_reflTransGen, .refl⟩

/-- New edges from `F` into `T` close no circle if nothing in `T` leads to `F`. -/
theorem Acyclic.of_new_edges {r s : α → α → Prop} {F T : α → Prop}
    (hr : Acyclic r)
    (hedge : ∀ a b, s a b → r a b ∨ F a ∧ T b)
    (hopen : ∀ t f, T t → F f → ¬ ReflTransGen r t f) : Acyclic s := by
  intro a hcircle
  rcases transGen_of_new_edges hedge hcircle with hold | ⟨f, t, hf, ht, hto, hfrom⟩
  · exact hr a hold
  · have hback : ReflTransGen s t f := hfrom.trans hto
    have hold : ReflTransGen r t f :=
      reflTransGen_of_new_edges hedge (fun c hc => hopen t c ht hc) hback
    exact hopen t f ht hf hold

/-- Following a relation without circles ends if only finitely many elements have successors. -/
theorem Acyclic.acc [DecidableEq α] {r : α → α → Prop} (hr : Acyclic r)
    (sources : List α) (hsources : ∀ a b, r a b → a ∈ sources) (a : α) :
    Acc (fun b a => r a b) a := by
  -- the elements on the way here are listed; none of them comes again
  suffices h : ∀ n (visited : List α) (a : α), unvisited sources visited = n →
      (∀ b ∈ visited, TransGen r b a) → Acc (fun b a => r a b) a from
    h _ [] a rfl (by simp)
  intro n
  induction n using Nat.strongRecOn with
  | ind n ih =>
      intro visited a hn hvisited
      refine Acc.intro a fun b hab => ?_
      have hfresh : a ∉ visited := fun hmem => hr a (hvisited a hmem)
      have hless := unvisited_cons_lt (hsources a b hab) hfresh
      refine ih _ (hn ▸ hless) (a :: visited) b rfl ?_
      intro c hc
      rcases List.mem_cons.mp hc with rfl | hc
      · exact .single hab
      · exact (hvisited c hc).tail hab

end Relations

/-! ## Inheritance -/

namespace Registry

variable {registry : Registry} {handle record parent : TypeHandle}

/-- The second type is the base type of the first. -/
def DerivesFrom (registry : Registry) (child parent : TypeHandle) : Prop :=
  registry.baseOf? child = some parent

/-- The second type is the first or an ancestor of it. -/
def Extends (registry : Registry) : TypeHandle → TypeHandle → Prop :=
  ReflTransGen registry.DerivesFrom

theorem DerivesFrom.unique {a b c : TypeHandle}
    (hb : registry.DerivesFrom a b) (hc : registry.DerivesFrom a c) : b = c :=
  Option.some.inj (hb.symm.trans hc)

theorem mem_handles_of_derivesFrom {a b : TypeHandle}
    (h : registry.DerivesFrom a b) : a ∈ registry.handles := by
  obtain ⟨d, -, hd, -, -⟩ := get?_of_baseOf? h
  exact mem_handles.mpr (isLive_of_get? hd)

/-- Of two ancestors of a type, one extends the other. -/
theorem Extends.total {a b c : TypeHandle}
    (hb : registry.Extends a b) (hc : registry.Extends a c) :
    registry.Extends b c ∨ registry.Extends c b :=
  ReflTransGen.total_of_right_unique (fun _ _ _ h k => h.unique k) hb hc

theorem Extends.eq_or_transGen {a b : TypeHandle}
    (h : registry.Extends a b) : a = b ∨ TransGen registry.DerivesFrom a b := by
  rcases reflTransGen_iff_eq_or_transGen.mp h with h | h
  · exact Or.inl h.symm
  · exact Or.inr h

theorem Extends.transGen_of_ne {a b : TypeHandle}
    (h : registry.Extends a b) (hne : a ≠ b) : TransGen registry.DerivesFrom a b :=
  h.eq_or_transGen.resolve_left hne

/-! ## Chains of base types -/

/-- The list holds the ancestors of a type, nearest first. -/
inductive BaseChain (registry : Registry) : TypeHandle → List TypeHandle → Prop
  | root {handle : TypeHandle} (h : registry.baseOf? handle = none) :
      BaseChain registry handle []
  | step {handle base : TypeHandle} {above : List TypeHandle}
      (h : registry.DerivesFrom handle base) (rest : BaseChain registry base above) :
      BaseChain registry handle (base :: above)

theorem BaseChain.mem_iff {above : List TypeHandle}
    (h : registry.BaseChain handle above) (a : TypeHandle) :
    a ∈ above ↔ TransGen registry.DerivesFrom handle a := by
  induction h with
  | root hnone =>
      constructor
      · intro hmem
        exact absurd hmem List.not_mem_nil
      · intro hpath
        obtain ⟨b, hstep, -⟩ := TransGen.head'_iff.mp hpath
        exact absurd (hnone.symm.trans hstep) (by simp)
  | step hbase hrest ih =>
      rw [List.mem_cons, ih]
      constructor
      · rintro (rfl | hpath)
        · exact .single hbase
        · exact .head hbase hpath
      · intro hpath
        obtain ⟨b, hstep, hpath⟩ := TransGen.head'_iff.mp hpath
        obtain rfl := hstep.unique hbase
        rcases reflTransGen_iff_eq_or_transGen.mp hpath with hsame | hpath
        · exact Or.inl hsame
        · exact Or.inr hpath

theorem BaseChain.nodup {above : List TypeHandle}
    (hacyclic : Acyclic registry.DerivesFrom) (h : registry.BaseChain handle above) :
    (handle :: above).Nodup := by
  induction h with
  | root _ => simp
  | @step handle base above hbase hrest ih =>
      refine List.nodup_cons.mpr ⟨fun hmem => ?_, ih⟩
      exact hacyclic handle (((BaseChain.step hbase hrest).mem_iff handle).mp hmem)

/-- A chain of base types is no longer than the list of live types. -/
theorem BaseChain.length_le {above : List TypeHandle}
    (hacyclic : Acyclic registry.DerivesFrom) (h : registry.BaseChain handle above) :
    above.length ≤ registry.handles.length := by
  -- every type of the chain but the last is live, and so is the type below it
  have hlive : ∀ a ∈ (handle :: above).dropLast, a ∈ registry.handles := by
    clear hacyclic
    induction h with
    | root _ => simp
    | step hbase hrest ih =>
        intro a ha
        rw [List.dropLast_cons_cons, List.mem_cons] at ha
        rcases ha with rfl | ha
        · exact mem_handles_of_derivesFrom hbase
        · exact ih a ha
  have hnodup : ((handle :: above).dropLast).Nodup :=
    (h.nodup hacyclic).sublist (List.dropLast_sublist _)
  have hlength := (hnodup.subperm hlive).length_le
  simpa using hlength

theorem exists_baseChain (hacyclic : Acyclic registry.DerivesFrom) (handle : TypeHandle) :
    ∃ above, registry.BaseChain handle above := by
  have hacc := hacyclic.acc registry.handles (fun _ _ => mem_handles_of_derivesFrom) handle
  induction hacc with
  | intro handle _ ih =>
      cases hbase : registry.baseOf? handle with
      | none => exact ⟨[], .root hbase⟩
      | some base =>
          obtain ⟨above, habove⟩ := ih base hbase
          exact ⟨base :: above, .step hbase habove⟩

theorem BaseChain.congr {other : Registry} {above : List TypeHandle}
    (hbase : ∀ h, other.baseOf? h = registry.baseOf? h)
    (h : registry.BaseChain handle above) : other.BaseChain handle above := by
  induction h with
  | root hnone => exact .root (by rw [hbase, hnone])
  | step hstep _ ih => exact .step (by rw [DerivesFrom, hbase]; exact hstep) ih

/-! ## The bounded walks -/

theorem ancestorsWithin_of_baseChain {above : List TypeHandle}
    (h : registry.BaseChain handle above) (start : TypeHandle) (steps : Nat)
    (found : List TypeHandle) (hsteps : above.length < steps)
    (hnodup : (start :: (found ++ above)).Nodup) :
    registry.ancestorsWithin start steps found (registry.baseOf? handle) = found ++ above := by
  induction h generalizing steps found with
  | root hnone =>
      cases steps <;> simp [ancestorsWithin, hnone]
  | @step handle base above hbase _ ih =>
      cases steps with
      | zero => exact absurd hsteps (Nat.not_lt_zero _)
      | succ steps =>
          have hparts := List.nodup_cons.mp hnodup
          have hstart : base ≠ start := by
            rintro rfl
            exact hparts.1 (by simp)
          have hfound : base ∉ found := by
            intro hmem
            exact (List.nodup_append.mp hparts.2).2.2 base hmem base (by simp) rfl
          have hrest := ih steps (found ++ [base])
            (by simpa using hsteps) (by simpa using hnodup)
          rw [show registry.baseOf? handle = some base from hbase]
          simp only [ancestorsWithin, hstart, hfound, or_self, if_false]
          rw [hrest, List.append_assoc, List.singleton_append]

theorem ancestors_of_baseChain {above : List TypeHandle}
    (hacyclic : Acyclic registry.DerivesFrom) (h : registry.BaseChain handle above) :
    registry.ancestors handle = above := by
  have hsteps : above.length < registry.definitions.size + 1 :=
    Nat.lt_succ_of_le (Nat.le_trans (h.length_le hacyclic) (length_handles_le registry))
  rw [ancestors, ancestorsWithin_of_baseChain h handle _ [] hsteps (h.nodup hacyclic),
    List.nil_append]

theorem baseChain_ancestors (hacyclic : Acyclic registry.DerivesFrom) (handle : TypeHandle) :
    registry.BaseChain handle (registry.ancestors handle) := by
  obtain ⟨above, h⟩ := exists_baseChain hacyclic handle
  rw [ancestors_of_baseChain hacyclic h]
  exact h

/-! ## So many steps along base types -/

/-- The type that a number of steps along base types leads to. -/
def baseAfter (registry : Registry) : Nat → TypeHandle → Option TypeHandle
  | 0, handle => some handle
  | steps + 1, handle => (registry.baseOf? handle).bind (registry.baseAfter steps)

theorem baseAfter_add (first second : Nat) (handle : TypeHandle) :
    registry.baseAfter (first + second) handle =
      (registry.baseAfter first handle).bind (registry.baseAfter second) := by
  induction first generalizing handle with
  | zero => rw [Nat.zero_add, baseAfter, Option.bind_some]
  | succ first ih =>
      rw [Nat.succ_add, baseAfter, baseAfter, Option.bind_assoc]
      exact Option.bind_congr fun base _ => ih base

theorem extends_iff_baseAfter {a b : TypeHandle} :
    registry.Extends a b ↔ ∃ steps, registry.baseAfter steps a = some b := by
  constructor
  · intro h
    induction h using ReflTransGen.head_induction_on with
    | refl => exact ⟨0, rfl⟩
    | head hstep _ ih =>
        obtain ⟨steps, hsteps⟩ := ih
        exact ⟨steps + 1, Option.bind_eq_some_iff.mpr ⟨_, hstep, hsteps⟩⟩
  · rintro ⟨steps, h⟩
    induction steps generalizing a with
    | zero =>
        obtain rfl := Option.some.inj h
        exact .refl
    | succ steps ih =>
        obtain ⟨base, hbase, hrest⟩ := Option.bind_eq_some_iff.mp h
        exact .head hbase (ih hrest)

/-- The shortest way to an ancestor. -/
theorem Extends.exists_shortest {a b : TypeHandle} (h : registry.Extends a b) :
    ∃ steps, registry.baseAfter steps a = some b ∧
      ∀ fewer < steps, registry.baseAfter fewer a ≠ some b := by
  have hexists := extends_iff_baseAfter.mp h
  exact ⟨Nat.find hexists, Nat.find_spec hexists, fun _ hless => Nat.find_min hexists hless⟩

/-- On the way to an ancestor every type but the last is live. -/
theorem exists_mem_handles_of_baseAfter {a b : TypeHandle} {taken steps : Nat}
    (h : registry.baseAfter steps a = some b) (hless : taken < steps) :
    ∃ met ∈ registry.handles, registry.baseAfter taken a = some met ∧
      registry.baseAfter (steps - taken) met = some b := by
  rw [show steps = taken + (steps - taken) by omega, baseAfter_add] at h
  obtain ⟨met, hmet, hrest⟩ := Option.bind_eq_some_iff.mp h
  have hbase := hrest
  rw [show steps - taken = (steps - taken - 1) + 1 by omega] at hbase
  obtain ⟨base, hstep, -⟩ := Option.bind_eq_some_iff.mp hbase
  exact ⟨met, mem_handles_of_derivesFrom hstep, hmet, hrest⟩

/-- The shortest way to an ancestor meets no type twice, so it has at most as many steps as there are
live types.  Base types may lead in circles. -/
theorem exists_baseAfter_le {a b : TypeHandle} (h : registry.Extends a b) :
    ∃ steps ≤ registry.handles.length, registry.baseAfter steps a = some b := by
  obtain ⟨steps, hend, hshortest⟩ := h.exists_shortest
  refine ⟨steps, ?_, hend⟩
  -- a type that is met at two steps makes the way shorter
  have hdistinct : ∀ first second, first < second → second < steps →
      registry.baseAfter first a ≠ registry.baseAfter second a := by
    intro first second hless hsecond hsame
    obtain ⟨met, -, hmet, hrest⟩ := exists_mem_handles_of_baseAfter hend hsecond
    refine hshortest (first + (steps - second)) (by omega) ?_
    rw [baseAfter_add, hsame, hmet, Option.bind_some, hrest]
  have hnodup : ((List.range steps).map fun taken => registry.baseAfter taken a).Nodup := by
    refine List.nodup_range.map_on fun first hfirst second hsecond hsame => ?_
    rw [List.mem_range] at hfirst hsecond
    rcases Nat.lt_trichotomy first second with hless | heq | hless
    · exact absurd hsame (hdistinct first second hless hsecond)
    · exact heq
    · exact absurd hsame.symm (hdistinct second first hless hfirst)
  have hlive : ((List.range steps).map fun taken => registry.baseAfter taken a) ⊆
      registry.handles.map some := by
    intro found hfound
    obtain ⟨taken, htaken, rfl⟩ := List.mem_map.mp hfound
    obtain ⟨met, hmem, hmet, -⟩ :=
      exists_mem_handles_of_baseAfter hend (List.mem_range.mp htaken)
    exact List.mem_map.mpr ⟨met, hmem, hmet.symm⟩
  simpa using (hnodup.subperm hlive).length_le

theorem reachesWithin_iff {steps : Nat} : registry.reachesWithin parent steps (some handle) = true ↔
    ∃ taken < steps, registry.baseAfter taken handle = some parent := by
  induction steps generalizing handle with
  | zero => simp [reachesWithin]
  | succ steps ih =>
      have hfirst : (∃ taken < steps + 1, registry.baseAfter taken handle = some parent) ↔
          handle = parent ∨ ∃ taken < steps, registry.baseAfter (taken + 1) handle = some parent := by
        rw [Nat.exists_lt_succ_left, baseAfter, Option.some.injEq]
      rw [hfirst, reachesWithin, Bool.or_eq_true, decide_eq_true_eq]
      refine or_congr_right ?_
      cases hbase : registry.baseOf? handle with
      | none =>
          cases steps <;> simp [reachesWithin, baseAfter, hbase]
      | some base => simp only [ih, baseAfter, hbase, Option.bind_some]

/-- The walk along base types decides whether a type extends another. -/
theorem isParentOf_iff (parent child : TypeHandle) :
    registry.isParentOf parent child = true ↔ registry.Extends child parent := by
  rw [isParentOf, reachesWithin_iff]
  constructor
  · rintro ⟨taken, -, htaken⟩
    exact extends_iff_baseAfter.mpr ⟨taken, htaken⟩
  · intro h
    obtain ⟨steps, hsteps, hafter⟩ := exists_baseAfter_le h
    exact ⟨steps, Nat.lt_succ_of_le (Nat.le_trans hsteps (length_handles_le registry)), hafter⟩

/-- A type belongs to the family of a record exactly if it extends the record. -/
theorem mem_family_iff (record h : TypeHandle) :
    h ∈ registry.family record ↔ registry.Extends h record := by
  rw [family, List.mem_cons, descendants, List.mem_filter, isStrictAncestor, Bool.and_eq_true,
    isParentOf_iff]
  constructor
  · rintro (rfl | ⟨-, -, hextends⟩)
    · exact .refl
    · exact hextends
  · intro hextends
    by_cases hsame : h = record
    · exact Or.inl hsame
    · have hpath := hextends.transGen_of_ne hsame
      obtain ⟨b, hstep, -⟩ := TransGen.head'_iff.mp hpath
      exact Or.inr ⟨mem_handles_of_derivesFrom hstep, by simpa using Ne.symm hsame, hextends⟩

/-! ## Effective fields -/

/-- A type with its ancestors, the farthest first. -/
def lineage (registry : Registry) (handle : TypeHandle) : List TypeHandle :=
  (registry.ancestors handle).reverse ++ [handle]

theorem mem_lineage_iff (hacyclic : Acyclic registry.DerivesFrom) (a handle : TypeHandle) :
    a ∈ registry.lineage handle ↔ registry.Extends handle a := by
  rw [lineage, List.mem_append, List.mem_reverse, List.mem_singleton,
    (baseChain_ancestors hacyclic handle).mem_iff, Extends, reflTransGen_iff_eq_or_transGen,
    or_comm]

theorem lineage_of_base {base : TypeHandle} (hacyclic : Acyclic registry.DerivesFrom)
    (hbase : registry.DerivesFrom handle base) :
    registry.lineage handle = registry.lineage base ++ [handle] := by
  have hchain := BaseChain.step hbase (baseChain_ancestors hacyclic base)
  rw [lineage, ancestors_of_baseChain hacyclic hchain, List.reverse_cons, lineage]

theorem lineage_of_root (hacyclic : Acyclic registry.DerivesFrom)
    (hbase : registry.baseOf? handle = none) : registry.lineage handle = [handle] := by
  rw [lineage, ancestors_of_baseChain hacyclic (.root hbase)]
  rfl

theorem lineage_congr {other : Registry} (hacyclic : Acyclic registry.DerivesFrom)
    (hbase : ∀ h, other.baseOf? h = registry.baseOf? h) (handle : TypeHandle) :
    other.lineage handle = registry.lineage handle := by
  have hother : Acyclic other.DerivesFrom :=
    hacyclic.mono fun a b h => by rwa [DerivesFrom, hbase] at h
  rw [lineage, lineage,
    ancestors_of_baseChain hother ((baseChain_ancestors hacyclic handle).congr hbase)]

theorem allFields_eq_flatMap (registry : Registry) (handle : TypeHandle) :
    registry.allFields handle = (registry.lineage handle).flatMap registry.ownFields := by
  simp [allFields, ownedFields, lineage, List.map_flatMap, Function.comp_def]

theorem mem_ownedFields_iff (hacyclic : Acyclic registry.DerivesFrom)
    {owned : OwnedField} :
    owned ∈ registry.ownedFields handle ↔
      registry.Extends handle owned.owner ∧ owned.field ∈ registry.ownFields owned.owner := by
  change owned ∈ (registry.lineage handle).flatMap _ ↔ _
  simp only [List.mem_flatMap, mem_lineage_iff hacyclic, List.mem_map]
  constructor
  · rintro ⟨owner, hextends, field, hfield, rfl⟩
    exact ⟨hextends, hfield⟩
  · rintro ⟨hextends, hfield⟩
    exact ⟨owned.owner, hextends, owned.field, hfield, rfl⟩

/-- A field is effective exactly if the type or an ancestor declares it. -/
theorem mem_allFields_iff (hacyclic : Acyclic registry.DerivesFrom) {field : Field} :
    field ∈ registry.allFields handle ↔
      ∃ owner, registry.Extends handle owner ∧ field ∈ registry.ownFields owner := by
  rw [allFields_eq_flatMap, List.mem_flatMap]
  simp only [mem_lineage_iff hacyclic]

theorem allFields_of_base {base : TypeHandle} (hacyclic : Acyclic registry.DerivesFrom)
    (hbase : registry.DerivesFrom handle base) :
    registry.allFields handle = registry.allFields base ++ registry.ownFields handle := by
  rw [allFields_eq_flatMap, lineage_of_base hacyclic hbase, List.flatMap_append,
    List.flatMap_singleton, allFields_eq_flatMap]

theorem allFields_of_root (hacyclic : Acyclic registry.DerivesFrom)
    (hbase : registry.baseOf? handle = none) :
    registry.allFields handle = registry.ownFields handle := by
  rw [allFields_eq_flatMap, lineage_of_root hacyclic hbase, List.flatMap_singleton]

/-- Effective fields stay as they are where neither base types nor declared fields change. -/
theorem allFields_congr {other : Registry} (hacyclic : Acyclic registry.DerivesFrom)
    (hbase : ∀ h, other.baseOf? h = registry.baseOf? h)
    (hown : ∀ owner, registry.Extends handle owner →
      other.ownFields owner = registry.ownFields owner) :
    other.allFields handle = registry.allFields handle := by
  rw [allFields_eq_flatMap, allFields_eq_flatMap, lineage_congr hacyclic hbase]
  exact List.flatMap_congr fun owner howner =>
    hown owner ((mem_lineage_iff hacyclic owner handle).mp howner)

end Registry
end LiveSchema
