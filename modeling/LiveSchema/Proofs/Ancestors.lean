import LiveSchema.Proofs.Schema.Lineage

/-!
# Ancestors on every registry

A document that was written by hand may let base types lead in a circle.  Two walks follow them all the
same: one asks for a single ancestor and gives up after so many steps, the other lists ancestors until a
type comes again.  Neither misses anything.  What they find are the types that base types lead to, the
type where they start apart.
-/

namespace LiveSchema
namespace Registry

open Relation

variable {registry : Registry} {start handle : TypeHandle} {found all other : List TypeHandle}
  {next : Option TypeHandle}

/-- The walk that lists ancestors, without a bound: from the types `found` and the one that comes next
it goes on to all types that it lists in the end. -/
inductive Climbs (registry : Registry) (start : TypeHandle) :
    List TypeHandle → Option TypeHandle → List TypeHandle → Prop
  /-- No base type is left. -/
  | top {found : List TypeHandle} : Climbs registry start found none found
  /-- A type comes again. -/
  | again {found : List TypeHandle} {handle : TypeHandle} (hmet : handle = start ∨ handle ∈ found) :
      Climbs registry start found (some handle) found
  /-- A new type is listed, and its base type comes next. -/
  | up {found all : List TypeHandle} {handle : TypeHandle}
      (hnew : ¬ (handle = start ∨ handle ∈ found))
      (rest : Climbs registry start (found ++ [handle]) (registry.baseOf? handle) all) :
      Climbs registry start found (some handle) all

/-- The walk comes to one end only. -/
theorem Climbs.unique (hall : registry.Climbs start found next all)
    (hother : registry.Climbs start found next other) : all = other := by
  induction hall with
  | top =>
      cases hother
      rfl
  | again hmet =>
      cases hother with
      | again _ => rfl
      | up hnew _ => exact absurd hmet hnew
  | up hnew _ ih =>
      cases hother with
      | again hmet => exact absurd hmet hnew
      | up _ hrest => exact ih hrest

/-! ## What holds on the way -/

/-- The types found are ancestors, each once, and nothing is left out but what lies behind the type that
comes next. -/
structure Climbing (registry : Registry) (start : TypeHandle) (found : List TypeHandle)
    (next : Option TypeHandle) : Prop where
  distinct : (start :: found).Nodup
  /-- As long as a type comes next, all types before it have base types. -/
  live : ∀ handle, next = some handle → start :: found ⊆ registry.handles
  ancestors : ∀ a, a ∈ found ∨ next = some a → registry.Extends start a
  covered : ∀ a ∈ start :: found, ∀ base, registry.DerivesFrom a base →
    base ∈ found ∨ next = some base

theorem climbing_start (registry : Registry) (start : TypeHandle) :
    registry.Climbing start [] (registry.baseOf? start) where
  distinct := List.nodup_singleton start
  live handle hbase := by simpa using mem_handles_of_derivesFrom hbase
  ancestors a ha := .single (ha.resolve_left List.not_mem_nil)
  covered a ha base hbase := by
    obtain rfl := List.mem_singleton.mp ha
    exact Or.inr hbase

/-- A new type is listed. -/
theorem Climbing.up (h : registry.Climbing start found (some handle))
    (hnew : ¬ (handle = start ∨ handle ∈ found)) :
    registry.Climbing start (found ++ [handle]) (registry.baseOf? handle) := by
  obtain ⟨hstart, hfound⟩ := not_or.mp hnew
  have hreached : registry.Extends start handle := h.ancestors handle (Or.inr rfl)
  refine ⟨?_, fun base hbase a ha => ?_, fun a ha => ?_, fun a ha base hbase => ?_⟩
  · rw [← List.cons_append]
    refine h.distinct.append (List.nodup_singleton handle) (List.disjoint_singleton.mpr ?_)
    exact fun hmem => (List.mem_cons.mp hmem).elim hstart hfound
  · rw [← List.cons_append, List.mem_append, List.mem_singleton] at ha
    rcases ha with ha | rfl
    · exact h.live handle rfl ha
    · exact mem_handles_of_derivesFrom hbase
  · rcases ha with ha | hbase
    · rcases List.mem_append.mp ha with ha | ha
      · exact h.ancestors a (Or.inl ha)
      · exact List.mem_singleton.mp ha ▸ hreached
    · exact hreached.tail hbase
  · rw [← List.cons_append, List.mem_append, List.mem_singleton] at ha
    rcases ha with ha | rfl
    · refine Or.inl (List.mem_append.mpr ((h.covered a ha base hbase).imp_right fun hnext => ?_))
      exact List.mem_singleton.mpr (Option.some.inj hnext).symm
    · exact Or.inr hbase

/-- Where the walk ends, the ancestors are listed. -/
theorem Climbing.mem_iff (h : registry.Climbing start found next)
    (hend : ∀ handle, next = some handle → handle = start ∨ handle ∈ found) (a : TypeHandle) :
    a ∈ found ↔ a ≠ start ∧ registry.Extends start a := by
  constructor
  · intro ha
    refine ⟨?_, h.ancestors a (Or.inl ha)⟩
    rintro rfl
    exact (List.nodup_cons.mp h.distinct).1 ha
  · rintro ⟨hne, hextends⟩
    suffices hmem : a ∈ start :: found from (List.mem_cons.mp hmem).resolve_left hne
    clear hne
    induction hextends with
    | refl => exact List.mem_cons_self
    | tail _ hbase ih =>
        rcases h.covered _ ih _ hbase with hfound | hnext
        · exact List.mem_cons_of_mem _ hfound
        · exact List.mem_cons.mpr (hend _ hnext)

/-- In the end, each ancestor is listed once. -/
theorem Climbing.of_climbs (h : registry.Climbing start found next)
    (hclimbs : registry.Climbs start found next all) :
    all.Nodup ∧ ∀ a, a ∈ all ↔ a ≠ start ∧ registry.Extends start a := by
  induction hclimbs with
  | top => exact ⟨(List.nodup_cons.mp h.distinct).2, h.mem_iff (by simp)⟩
  | again hmet =>
      refine ⟨(List.nodup_cons.mp h.distinct).2, h.mem_iff fun handle hnext => ?_⟩
      exact Option.some.inj hnext ▸ hmet
  | up hnew _ ih => exact ih (h.up hnew)

/-- Each type on the way is another live type, so the walk ends before its steps are used up. -/
theorem Climbing.climbs {steps : Nat} (h : registry.Climbing start found next)
    (hsteps : registry.handles.length < steps + found.length) :
    registry.Climbs start found next (registry.ancestorsWithin start steps found next) := by
  induction steps generalizing found next with
  | zero =>
      cases next with
      | none => exact .top
      | some handle =>
          have hlength := (h.distinct.subperm (h.live handle rfl)).length_le
          rw [List.length_cons] at hlength
          omega
  | succ steps ih =>
      cases next with
      | none => exact .top
      | some handle =>
          rw [ancestorsWithin]
          split
          next hmet => exact .again hmet
          next hnew =>
              refine .up hnew (ih (h.up hnew) ?_)
              rw [List.length_append, List.length_singleton]
              omega

theorem climbs_ancestors (registry : Registry) (handle : TypeHandle) :
    registry.Climbs handle [] (registry.baseOf? handle) (registry.ancestors handle) :=
  (registry.climbing_start handle).climbs
    (Nat.lt_succ_of_le (length_handles_le registry))

/-- On every registry, also where base types lead in circles, the walk that lists ancestors ends, and it
lists each once.  The types listed are those of which the other walk says that they are ancestors, and
these are the types, other than the start, that base types lead to from there.  The types that derive
from a type are the live types among whose ancestors it is. -/
theorem ancestors_of_any_registry (registry : Registry) (ancestor handle : TypeHandle) :
    (∀ all, registry.Climbs handle [] (registry.baseOf? handle) all ↔
        all = registry.ancestors handle) ∧
      (registry.ancestors handle).Nodup ∧
      (ancestor ∈ registry.ancestors handle ↔
        registry.isStrictAncestor ancestor handle = true) ∧
      (registry.isStrictAncestor ancestor handle = true ↔
        ancestor ≠ handle ∧ registry.Extends handle ancestor) ∧
      (handle ∈ registry.descendants ancestor ↔
        registry.isLive handle = true ∧ ancestor ∈ registry.ancestors handle) := by
  have hclimbs := registry.climbs_ancestors handle
  obtain ⟨hnodup, hmem⟩ := (registry.climbing_start handle).of_climbs hclimbs
  have hstrict : registry.isStrictAncestor ancestor handle = true ↔
      ancestor ≠ handle ∧ registry.Extends handle ancestor := by
    rw [isStrictAncestor, Bool.and_eq_true, decide_eq_true_eq, isParentOf_iff]
  refine ⟨fun all => ⟨fun h => h.unique hclimbs, ?_⟩, hnodup, ?_, hstrict, ?_⟩
  · rintro rfl
    exact hclimbs
  · rw [hmem, hstrict]
  · rw [descendants, List.mem_filter, mem_handles, hmem, hstrict]

/-- A struct derives from one of two structs that derive from each other. -/
example :
    let structs := ((initial.declare (.newRecord .struct "A")).declare (.newRecord .struct "B")).declare
      (.newRecord .struct "C")
    let registry := ((structs.setBase ⟨37⟩ (some (.plain ⟨38⟩))).setBase ⟨38⟩
      (some (.plain ⟨39⟩))).setBase ⟨39⟩ (some (.plain ⟨38⟩))
    registry.ancestors ⟨37⟩ = [⟨38⟩, ⟨39⟩] ∧ registry.ancestors ⟨38⟩ = [⟨39⟩] ∧
      registry.descendants ⟨39⟩ = [⟨37⟩, ⟨38⟩] := by
  decide +kernel

end Registry
end LiveSchema
