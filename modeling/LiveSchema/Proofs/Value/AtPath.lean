import LiveSchema.Proofs.Value.Entries
import LiveSchema.Value.Path

/-!
# Changing a value at a path

`ValuePath.modify` changes what a path leads to and leaves everything around it as it is.  Several
changes behind the same step are one change behind that step, so a list of changes can be sorted by the
first step of their paths.
-/

namespace LiveSchema

namespace Entries

variable {entries : Entries} {key other : String} {f g : Json → Json}

/-- Changes the value under a key in its place.  If the key does not occur, nothing changes. -/
def modify (key : String) (f : Json → Json) (entries : Entries) : Entries :=
  match value? entries key with
  | none => entries
  | some value => assign key (f value) entries

theorem assign_assign (key : String) (first second : Json) (entries : Entries) :
    assign key second (assign key first entries) = assign key second entries := by
  induction entries with
  | nil => simp [assign]
  | cons entry rest ih =>
      rw [assign]
      by_cases hkey : entry.1 = key
      · rw [if_pos hkey, assign, assign, if_pos rfl, if_pos hkey]
      · rw [if_neg hkey, assign, assign, if_neg hkey, if_neg hkey, ih]

/-- Setting a key to the value that it has changes nothing. -/
theorem assign_of_value? {value : Json} (h : value? entries key = some value) :
    assign key value entries = entries := by
  induction entries with
  | nil => exact absurd h (by simp)
  | cons entry rest ih =>
      rw [value?_cons] at h
      rw [assign]
      by_cases hkey : entry.1 = key
      · rw [if_pos hkey] at h ⊢
        rw [← hkey, ← Option.some.inj h]
      · rw [if_neg hkey] at h ⊢
        rw [ih h]

theorem value?_modify (key : String) (f : Json → Json) (entries : Entries) (other : String) :
    value? (modify key f entries) other =
      if key = other then (value? entries other).map f else value? entries other := by
  unfold modify
  cases hvalue : value? entries key with
  | none =>
      by_cases hother : key = other
      · simp [← hother, hvalue]
      · simp [hother]
  | some value =>
      simp only [value?_assign]
      by_cases hother : key = other
      · simp [← hother, hvalue]
      · simp [hother]

@[simp] theorem keys_modify (key : String) (f : Json → Json) (entries : Entries) :
    keys (modify key f entries) = keys entries := by
  unfold modify
  cases hvalue : value? entries key with
  | none => rfl
  | some value => exact keys_assign_of_mem (exists_value?_iff.mp ⟨value, hvalue⟩)

theorem modify_modify (key : String) (f g : Json → Json) (entries : Entries) :
    modify key g (modify key f entries) = modify key (g ∘ f) entries := by
  have hlookup := value?_modify key f entries key
  rw [if_pos rfl] at hlookup
  rw [modify, hlookup, modify]
  cases hvalue : value? entries key with
  | none => simp [modify, hvalue]
  | some value => simp [modify, hvalue, assign_assign]

theorem modify_id (key : String) (entries : Entries) : modify key id entries = entries := by
  unfold modify
  cases hvalue : value? entries key with
  | none => rfl
  | some value => exact assign_of_value? hvalue

/-- Entries with the same keys in the same order, and the same values under them, are equal. -/
theorem ext_value? {first second : Entries} (hnodup : (keys first).Nodup)
    (hkeys : keys first = keys second)
    (hvalues : ∀ key, value? first key = value? second key) : first = second := by
  induction first generalizing second with
  | nil => exact (List.map_eq_nil_iff.mp hkeys.symm).symm
  | cons entry rest ih =>
      obtain ⟨hnot, hrest⟩ := List.nodup_cons.mp hnodup
      obtain ⟨entry', rest', rfl⟩ : ∃ entry' rest', second = entry' :: rest' := by
        cases second with
        | nil => exact absurd hkeys (by simp [keys])
        | cons entry' rest' => exact ⟨entry', rest', rfl⟩
      obtain ⟨hkey, hkeys'⟩ : entry.1 = entry'.1 ∧ keys rest = keys rest' := List.cons.inj hkeys
      have hfirst := hvalues entry.1
      rw [value?_cons, value?_cons, if_pos rfl, if_pos hkey.symm, Option.some.injEq] at hfirst
      rw [Prod.ext hkey hfirst]
      refine congrArg _ (ih hrest hkeys' fun key => ?_)
      have hsame := hvalues key
      rw [value?_cons, value?_cons, ← hkey] at hsame
      by_cases hother : entry.1 = key
      · -- the key of the first entry does not occur again
        subst hother
        rw [value?_eq_none_iff.mpr hnot]
        exact (value?_eq_none_iff.mpr (hkeys' ▸ hnot)).symm
      · rwa [if_neg hother, if_neg hother] at hsame

end Entries

namespace Json

/-- The value of an object under a key. -/
def under (key : String) (value : Json) : Json :=
  ((PathSegment.field key).child? value).getD .null

theorem child?_object (entries : Entries) (key : String) :
    PathSegment.child? (object entries) (.field key) = Entries.value? entries key := rfl

theorem under_object {entries : Entries} {key : String} {held : Json}
    (h : Entries.value? entries key = some held) : (object entries).under key = held := by
  rw [under, child?_object, h, Option.getD_some]

/-- Changes the value under a key of an object; other values stay as they are. -/
def modifyEntry (key : String) (f : Json → Json) : Json → Json
  | object entries => object (Entries.modify key f entries)
  | value => value

/-- Changes an item of an array; other values stay as they are. -/
def modifyItem (index : Nat) (f : Json → Json) : Json → Json
  | array items => array (items.modify index f)
  | value => value

theorem modifyEntry_comp (key : String) (f g : Json → Json) :
    modifyEntry key g ∘ modifyEntry key f = modifyEntry key (g ∘ f) := by
  funext value
  cases value with
  | object entries => exact congrArg object (Entries.modify_modify key f g entries)
  | _ => rfl

theorem modifyEntry_id (key : String) : modifyEntry key id = id := by
  funext value
  cases value with
  | object entries => exact congrArg object (Entries.modify_id key entries)
  | _ => rfl

theorem modifyItem_comp (index : Nat) (f g : Json → Json) :
    modifyItem index g ∘ modifyItem index f = modifyItem index (g ∘ f) := by
  funext value
  cases value with
  | array items => exact congrArg array (List.modify_modify_eq f g index items)
  | _ => rfl

theorem modifyItem_id (index : Nat) : modifyItem index id = id := by
  funext value
  cases value with
  | array items => exact congrArg array (List.modify_id index items)
  | _ => rfl

end Json

namespace PathSegment

/-- Changes the value that a step leads to. -/
def modify : PathSegment → (Json → Json) → Json → Json
  | field name, f => Json.modifyEntry name f
  | index position, f => Json.modifyItem position f
  | payload, f => Json.modifyItem 1 f
  | pointee, f => f
  | mapKey position, f => Json.modifyItem position (Json.modifyItem 0 f)
  | mapValue position, f => Json.modifyItem position (Json.modifyItem 1 f)

theorem modify_comp (segment : PathSegment) (f g : Json → Json) :
    segment.modify g ∘ segment.modify f = segment.modify (g ∘ f) := by
  cases segment with
  | field name => exact Json.modifyEntry_comp name f g
  | index position => exact Json.modifyItem_comp position f g
  | payload => exact Json.modifyItem_comp 1 f g
  | pointee => rfl
  | mapKey position => simp only [modify, Json.modifyItem_comp]
  | mapValue position => simp only [modify, Json.modifyItem_comp]

theorem modify_id (segment : PathSegment) : segment.modify id = id := by
  cases segment with
  | field name => exact Json.modifyEntry_id name
  | index position => exact Json.modifyItem_id position
  | payload => exact Json.modifyItem_id 1
  | pointee => rfl
  | mapKey position => simp only [modify, Json.modifyItem_id]
  | mapValue position => simp only [modify, Json.modifyItem_id]

/-- Changes behind one step, one after the other, are one change behind this step. -/
theorem foldl_modify {α : Type u} (segment : PathSegment) (change : Json → α → Json)
    (list : List α) (value : Json) :
    list.foldl (fun value a => segment.modify (fun inner => change inner a) value) value =
      segment.modify (fun inner => list.foldl change inner) value := by
  induction list generalizing value with
  | nil => exact (congrFun segment.modify_id value).symm
  | cons first rest ih =>
      rw [List.foldl_cons, ih]
      exact congrFun (segment.modify_comp (fun inner => change inner first) _) value

end PathSegment

namespace ValuePath

/-- Changes the value that a path leads to. -/
def modify (path : ValuePath) (f : Json → Json) : Json → Json :=
  path.segments.foldr PathSegment.modify f

theorem modify_id (path : ValuePath) : path.modify id = id := by
  obtain ⟨segments⟩ := path
  induction segments with
  | nil => rfl
  | cons segment rest ih => exact (congrArg segment.modify ih).trans segment.modify_id

end ValuePath
end LiveSchema
