/-!
# Unvisited elements

Searches through a schema keep a list of what they have visited.  They end because each step visits
an element of a finite list that was not visited before.
-/

namespace LiveSchema

variable {α : Type u} [DecidableEq α]

/-- How many elements of a list are not among those visited. -/
def unvisited : List α → List α → Nat
  | [], _ => 0
  | a :: rest, visited => (if a ∈ visited then 0 else 1) + unvisited rest visited

theorem unvisited_cons_le (all visited : List α) (a : α) :
    unvisited all (a :: visited) ≤ unvisited all visited := by
  induction all with
  | nil => exact Nat.le_refl _
  | cons b rest ih =>
    simp only [unvisited]
    by_cases old : b ∈ visited
    · simp only [List.mem_cons, old, or_true, if_true]
      omega
    · by_cases same : b = a <;> simp only [List.mem_cons, old, same, true_or, or_self, if_true,
        if_false] <;> omega

theorem unvisited_cons_lt {all visited : List α} {a : α} (present : a ∈ all)
    (fresh : a ∉ visited) : unvisited all (a :: visited) < unvisited all visited := by
  induction all with
  | nil => exact absurd present List.not_mem_nil
  | cons b rest ih =>
    simp only [unvisited]
    have shrinks := unvisited_cons_le rest visited a
    by_cases same : b = a
    · subst same
      simp only [List.mem_cons, true_or, if_true, fresh, if_false]
      omega
    · have smaller := ih ((List.mem_cons.mp present).resolve_left (Ne.symm same))
      by_cases old : b ∈ visited
      · simp only [List.mem_cons, old, or_true, if_true]
        omega
      · simp only [List.mem_cons, same, old, or_self, if_false]
        omega

end LiveSchema
