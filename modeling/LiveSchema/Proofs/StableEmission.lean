import LiveSchema.Proofs.Emission

/-!
# Orders that change nothing

The order of emission can be asked for any list of types, on any registry.  Where each type of the list
stands behind what it requires, the list is its own order.  The order of a list is such a list, unless
types of it require each other in a circle.
-/

namespace LiveSchema
namespace Registry

open Relation

variable {registry : Registry} {types wanted closed ordered done : List TypeHandle}
  {stack : List Placing} {handle part : TypeHandle}

/-- Each type of a list stands behind those types of the list that it requires. -/
def Settled (registry : Registry) (types : List TypeHandle) : Prop :=
  ∀ before handle after, types = before ++ handle :: after →
    ∀ part ∈ registry.requiredDependencies handle, part ∈ types → part ∈ before

/-- A type of a list requires another one of the list. -/
def RequiresAmong (registry : Registry) (types : List TypeHandle) (handle part : TypeHandle) :
    Prop :=
  handle ∈ types ∧ part ∈ types ∧ part ∈ registry.requiredDependencies handle

/-! ## Lists that are settled -/

/-- Visits of types that are closed or not wanted leave nothing behind. -/
theorem placeFrom_visits (types : List TypeHandle)
    (hstale : ∀ a ∈ types, a ∈ wanted → a ∈ closed) :
    registry.placeFrom wanted closed ordered (types.map .visit ++ stack) =
      registry.placeFrom wanted closed ordered stack := by
  induction types with
  | nil => rfl
  | cons first rest ih =>
      obtain ⟨hfirst, hrest⟩ := List.forall_mem_cons.mp hstale
      rw [List.map_cons, List.cons_append, placeFrom, dif_neg fun h => h.2 (hfirst h.1)]
      exact ih hrest

/-- With the types before it in order, the rest of a settled list is put in order as it stands. -/
theorem Settled.placeFrom_eq (h : registry.Settled types) (hnodup : types.Nodup)
    {rest : List TypeHandle} (hsplit : types = done ++ rest)
    (hclosed : ∀ a, a ∈ closed ↔ a ∈ done) :
    registry.placeFrom types closed done (rest.map .visit) = types := by
  induction rest generalizing done closed with
  | nil => rw [List.map_nil, placeFrom, hsplit, List.append_nil]
  | cons first rest ih =>
      have hwanted : first ∈ types := by simp [hsplit]
      have hfresh : first ∉ closed := by
        rw [hsplit, List.nodup_middle, List.nodup_cons] at hnodup
        exact fun hmem => hnodup.1 (List.mem_append_left _ ((hclosed first).mp hmem))
      rw [List.map_cons, placeFrom, dif_pos ⟨hwanted, hfresh⟩,
        placeFrom_visits _ fun part hpart hlisted => ?_, placeFrom]
      · refine ih (by simp [hsplit]) fun a => ?_
        rw [List.mem_cons, hclosed, List.mem_append, List.mem_singleton, or_comm]
      · have hbefore := h done first rest hsplit part hpart hlisted
        exact List.mem_cons_of_mem _ ((hclosed part).mpr hbefore)

theorem Settled.order_eq (h : registry.Settled types) (hnodup : types.Nodup) :
    registry.order types = types :=
  h.placeFrom_eq hnodup rfl fun _ => Iff.rfl

/-! ## Lists that are put in order -/

/-- A circle of requirements that starts in the list stays in it. -/
theorem transGen_requiresAmong {handle part : TypeHandle} (hpart : part ∈ types)
    (h : TransGen (fun a b => a ∈ types ∧ b ∈ registry.requiredDependencies a) handle part) :
    TransGen (registry.RequiresAmong types) handle part := by
  induction h using TransGen.head_induction_on with
  | single hstep => exact .single ⟨hstep.1, hpart, hstep.2⟩
  | head hstep hrest ih =>
      obtain ⟨_, hnext, -⟩ := TransGen.head'_iff.mp hrest
      exact .head ⟨hstep.1, hnext.1, hstep.2⟩ ih

/-- An order is settled if no types of the list require each other in a circle. -/
theorem settled_order (hacyclic : Acyclic (registry.RequiresAmong types)) :
    registry.Settled (registry.order types) := by
  have hneeds : Acyclic fun a b => a ∈ types ∧ b ∈ registry.requiredDependencies a := by
    intro handle hcircle
    obtain ⟨_, hstep, -⟩ := TransGen.head'_iff.mp hcircle
    exact hacyclic handle (transGen_requiresAmong hstep.1 hcircle)
  obtain ⟨-, hmem, hbefore⟩ :=
    order_spec_of_acyclic (fun handle hhandle part => (and_iff_right hhandle).symm) hneeds
  intro before handle after hsplit part hpart hlisted
  have hhandle : handle ∈ types := (hmem handle).mp (by simp [hsplit])
  exact hbefore before handle after hsplit part ((hmem part).mp hlisted) ⟨hhandle, hpart⟩

/-- On every registry, the order of a list has each type of the list exactly once.  A list without
repetition in which each type stands behind what it requires is its own order; hence the order of an
order is the order itself, as long as no types of the list require each other in a circle. -/
theorem order_of_any_list (registry : Registry) (types : List TypeHandle) :
    (registry.order types).Perm types.dedup ∧
      (types.Nodup → registry.Settled types → registry.order types = types) ∧
      (Acyclic (registry.RequiresAmong types) →
        registry.order (registry.order types) = registry.order types) := by
  have hperm := registry.order_perm_dedup types
  refine ⟨hperm, fun hnodup hsettled => hsettled.order_eq hnodup, fun hacyclic => ?_⟩
  exact (settled_order hacyclic).order_eq (hperm.nodup_iff.mpr types.nodup_dedup)

/-- A struct that holds the next one, and a third struct that holds itself. -/
def holdingNext : Registry :=
  (((initial.declare (.newRecord .struct "A")).declare (.newRecord .struct "B")).declare
    (.newRecord .struct "C")).modifyFields ⟨37⟩ (fun _ => [⟨"next", .plain ⟨38⟩, .empty, ""⟩])
      |>.modifyFields ⟨39⟩ fun _ => [⟨"own", .plain ⟨39⟩, .empty, ""⟩]

/-- The first two structs are put in order the other way round, and stay so. -/
theorem order_of_any_list_holdingNext :
    (holdingNext.order [⟨37⟩, ⟨38⟩, ⟨37⟩]).Perm [⟨38⟩, ⟨37⟩] ∧
      holdingNext.Settled [⟨38⟩, ⟨37⟩] ∧ holdingNext.order [⟨38⟩, ⟨37⟩] = [⟨38⟩, ⟨37⟩] ∧
      Acyclic (holdingNext.RequiresAmong [⟨37⟩, ⟨38⟩]) ∧
      holdingNext.order (holdingNext.order [⟨37⟩, ⟨38⟩]) = holdingNext.order [⟨37⟩, ⟨38⟩] := by
  have hfirst : holdingNext.requiredDependencies ⟨37⟩ = [⟨38⟩] := by decide +kernel
  have hsecond : holdingNext.requiredDependencies ⟨38⟩ = [] := by decide +kernel
  have hsettled : holdingNext.Settled [⟨38⟩, ⟨37⟩] := by
    intro before handle after hsplit part hpart _
    rcases before with _ | ⟨first, _ | ⟨second, rest⟩⟩
    · obtain ⟨rfl, -⟩ := List.cons.inj hsplit
      exact absurd (hsecond ▸ hpart) List.not_mem_nil
    · obtain ⟨rfl, hrest⟩ := List.cons.inj hsplit
      obtain ⟨rfl, -⟩ := List.cons.inj hrest
      exact hfirst ▸ hpart
    · exact absurd (congrArg List.length hsplit) (by simp)
  have hacyclic : Acyclic (holdingNext.RequiresAmong [⟨37⟩, ⟨38⟩]) := by
    -- every step leads to the second struct, which requires nothing
    have hnone : ∀ handle, ¬ holdingNext.RequiresAmong [⟨37⟩, ⟨38⟩] ⟨38⟩ handle := by
      rintro handle ⟨-, -, hpart⟩
      exact absurd (hsecond ▸ hpart) List.not_mem_nil
    have hstep : ∀ handle part, holdingNext.RequiresAmong [⟨37⟩, ⟨38⟩] handle part →
        handle = ⟨37⟩ ∧ part = ⟨38⟩ := by
      rintro handle part hrequires
      rcases List.mem_cons.mp hrequires.1 with rfl | hother
      · exact ⟨rfl, List.mem_singleton.mp (hfirst ▸ hrequires.2.2)⟩
      · obtain rfl := List.mem_singleton.mp hother
        exact absurd hrequires (hnone part)
    intro handle hcircle
    obtain ⟨last, -, hlast⟩ := TransGen.tail'_iff.mp hcircle
    obtain ⟨next, hnext, -⟩ := TransGen.head'_iff.mp hcircle
    obtain ⟨-, rfl⟩ := hstep last handle hlast
    exact hnone next hnext
  obtain ⟨-, hsame, -⟩ := order_of_any_list holdingNext [⟨38⟩, ⟨37⟩]
  obtain ⟨-, -, hidempotent⟩ := order_of_any_list holdingNext [⟨37⟩, ⟨38⟩]
  exact ⟨(order_of_any_list holdingNext [⟨37⟩, ⟨38⟩, ⟨37⟩]).1, hsettled,
    hsame (by decide) hsettled, hacyclic, hidempotent hacyclic⟩

end Registry
end LiveSchema
