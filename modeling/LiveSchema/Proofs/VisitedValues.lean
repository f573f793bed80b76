import LiveSchema.Proofs.Value.Leaves
import Mathlib

/-!
# What a walk calls on

A walk over a value calls on everything inside it in pre-order, until a call stops it.  The path of each
call leads to the value of the call.  If the whole value conforms to its type, the value of each call
conforms to the type of the call; nothing has to be known about the registry for that.
-/

namespace LiveSchema

/-- A walk that stops early has made the first of the calls of the whole walk. -/
theorem visitsUntil_isPrefix (stop : Visit → Bool) (visits : List Visit) :
    (visitsUntil stop visits).1 <+: visits := by
  induction visits with
  | nil => exact List.prefix_refl []
  | cons visit rest ih =>
      rw [visitsUntil]
      split
      · exact ⟨rest, rfl⟩
      · exact List.prefix_cons_inj visit |>.mpr ih

/-- A walk whose calls never stop it makes all of them. -/
theorem visitsUntil_never (visits : List Visit) :
    visitsUntil (fun _ => false) visits = (visits, false) := by
  induction visits with
  | nil => rfl
  | cons visit rest ih => simp [visitsUntil, ih]

namespace Registry

variable {registry : Registry} {reference : TypeReference} {value : Json}

theorem mem_reached_of_mem_visits {visit : Visit} (h : visit ∈ registry.visits reference value) :
    visit ∈ registry.reached noBarrier reference value := by
  rw [reached_eq_cons_visits]
  exact List.mem_cons_of_mem _ h

/-- Each call of a walk, wherever the walk stops, is on the value that the path of the call leads to,
and this value conforms to the type of the call if the whole value conforms to its type. -/
theorem resolves_and_conforms_of_called (stop : Visit → Bool) {visit : Visit}
    (hcalled : visit ∈ (visitsUntil stop (registry.visits reference value)).1) :
    visit.path.resolve? value = some visit.value ∧
      (registry.conforms reference value = true →
        registry.conforms visit.type visit.value = true) := by
  have hvisit : visit ∈ registry.reached noBarrier reference value :=
    mem_reached_of_mem_visits ((visitsUntil_isPrefix stop _).subset hcalled)
  refine ⟨resolve?_of_mem_reached hvisit, fun hconforms => ?_⟩
  exact everywhere_of_conforms hconforms visit.type visit.value (within_of_mem_reached hvisit)

/-- The text behind the pointer of the second entry of a map is called on, although the walk stops
there. -/
theorem resolves_and_conforms_of_called_in_map :
    let owned : TypeReference := ⟨⟨18⟩, [.type (.plain ⟨12⟩)]⟩
    let reference : TypeReference := ⟨⟨20⟩, [.type (.plain ⟨11⟩), .type owned]⟩
    let value : Json := .array
      [.array [.bool true, .null], .array [.bool false, .string "x"], .array [.bool true, .null]]
    let visit : Visit := ⟨.plain ⟨12⟩, ⟨[.mapValue 1, .pointee]⟩, .string "x"⟩
    let calls := (visitsUntil (fun visit => visit.type.handle = ⟨12⟩)
      (initial.visits reference value)).1
    visit ∈ calls ∧ calls.length = 5 ∧ visit.path.resolve? value = some visit.value ∧
      initial.conforms visit.type visit.value = true := by
  intro owned reference value visit calls
  have hcalls : calls = [⟨.plain ⟨11⟩, ⟨[.mapKey 0]⟩, .bool true⟩, ⟨owned, ⟨[.mapValue 0]⟩, .null⟩,
      ⟨.plain ⟨11⟩, ⟨[.mapKey 1]⟩, .bool false⟩, ⟨owned, ⟨[.mapValue 1]⟩, .string "x"⟩, visit] := by
    simp only [calls, value, reference, owned, visit]
    cbv
  have hcalled : visit ∈ calls := by
    simp [hcalls]
  obtain ⟨hresolve, hconforms⟩ := resolves_and_conforms_of_called _ hcalled
  exact ⟨hcalled, by rw [hcalls]; rfl, hresolve, hconforms (by cbv)⟩

end Registry
end LiveSchema
