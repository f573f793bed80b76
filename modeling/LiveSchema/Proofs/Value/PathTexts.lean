import LiveSchema.Proofs.Schema.Words
import LiveSchema.Proofs.Value.Leaves

/-!
# The texts of paths

The texts of two steps may be the same, or one may start like the other: `.value` is what a variant
holds and also a field of that name, and `[0].key` is a key of a map and also a field of an element of a
list.  But the type of a value leaves only steps of one kind, the names of fields are words, and nothing
that follows a word or a number in a path continues it.  So the steps from one value have texts that
differ whatever follows, and everything inside a value has a text of its own.
-/

namespace LiveSchema

namespace PathSegment

/-- The text of a step starts with a mark that continues no word and no number. -/
theorem exists_mark (segment : PathSegment) :
    ∃ mark text, segment.render.toList = mark :: text ∧
      TypeText.continuesIdentifier mark = false := by
  cases segment with
  | field name => exact ⟨'.', name.toList, by simp [render], by decide⟩
  | index position => exact ⟨'[', _, by simp [render]; rfl, by decide⟩
  | payload => exact ⟨'.', "value".toList, by simp [render], by decide⟩
  | pointee => exact ⟨'*', [], by simp [render], by decide⟩
  | mapKey position => exact ⟨'[', _, by simp [render]; rfl, by decide⟩
  | mapValue position => exact ⟨'[', _, by simp [render]; rfl, by decide⟩

/-- The text of the step is a number in brackets and a mark behind them. -/
def Numbered (position : Nat) (segment : PathSegment) : Prop :=
  ∃ mark, segment.render = "[" ++ Nat.repr position ++ "]" ++ mark

theorem numbered_index (position : Nat) : (index position).Numbered position :=
  ⟨"", by simp [render]⟩

theorem numbered_mapKey (position : Nat) : (mapKey position).Numbered position :=
  ⟨".key", by simp [render, String.append_assoc]⟩

theorem numbered_mapValue (position : Nat) : (mapValue position).Numbered position :=
  ⟨".value", by simp [render, String.append_assoc]⟩

end PathSegment

namespace ValuePath

theorem toList_render_cons (segment : PathSegment) (behind : List PathSegment) :
    (render ⟨segment :: behind⟩).toList = segment.render.toList ++ (render ⟨behind⟩).toList := by
  cases behind with
  | nil => simp [render]
  | cons next behind => simp [render, String.intercalate_cons_cons]

/-- The text of a path continues no word and no number before it. -/
theorem breaks_render (path : ValuePath) : TypeText.Breaks path.render.toList := by
  obtain ⟨segments⟩ := path
  cases segments with
  | nil => simp [render, TypeText.Breaks]
  | cons segment behind =>
      obtain ⟨mark, text, htext, hmark⟩ := segment.exists_mark
      rw [toList_render_cons, htext]
      exact TypeText.breaks_cons hmark _

end ValuePath

/-! ## Steps that are apart -/

namespace PathSegment

variable {first second : PathSegment}

/-- The texts of two paths differ, one of which starts with the one step and one with the other. -/
def Apart (first second : PathSegment) : Prop :=
  ∀ behind other : List PathSegment,
    ValuePath.render ⟨first :: behind⟩ ≠ ValuePath.render ⟨second :: other⟩

theorem apart_iff : first.Apart second ↔ ∀ behind other : ValuePath,
    first.render.toList ++ behind.render.toList ≠ second.render.toList ++ other.render.toList := by
  simp only [Apart, ne_eq, ← String.toList_inj, ValuePath.toList_render_cons]
  exact ⟨fun h behind other => h behind.segments other.segments,
    fun h behind other => h ⟨behind⟩ ⟨other⟩⟩

/-- Fields of different names are apart. -/
theorem apart_field {name other : String} (hname : TypeText.IsWord name.toList)
    (hother : TypeText.IsWord other.toList) (hne : name ≠ other) :
    (field name).Apart (field other) := by
  refine apart_iff.mpr fun behind rest hsame => hne (String.toList_inj.mp ?_)
  have htexts : name.toList ++ behind.render.toList = other.toList ++ rest.render.toList := by
    simpa [render] using hsame
  rw [← (TypeText.span_of_breaks hname.continues behind.breaks_render).1, htexts,
    (TypeText.span_of_breaks hother.continues rest.breaks_render).1]

theorem takeWhile_isDigit (position : Nat) (rest : List Char) :
    ((Nat.repr position).toList ++ ']' :: rest).takeWhile Char.isDigit =
      (Nat.repr position).toList := by
  refine (TypeText.span_of_breaks (fun c hc => ?_) fun c hc => ?_).1
  · rw [Nat.toList_repr] at hc
    exact (TypeText.isNumeral_toDigits position).2 c hc
  · obtain rfl : ']' = c := Option.some.inj hc
    decide

/-- Steps of different numbers are apart. -/
theorem Numbered.apart {position other : Nat} (hfirst : first.Numbered position)
    (hsecond : second.Numbered other) (hne : position ≠ other) : first.Apart second := by
  obtain ⟨mark, hfirst⟩ := hfirst
  obtain ⟨mark', hsecond⟩ := hsecond
  refine apart_iff.mpr fun behind rest hsame => hne (Nat.repr_injective (String.toList_inj.mp ?_))
  have htexts : (Nat.repr position).toList ++ ']' :: (mark.toList ++ behind.render.toList) =
      (Nat.repr other).toList ++ ']' :: (mark'.toList ++ rest.render.toList) := by
    rw [hfirst, hsecond] at hsame
    simpa using hsame
  rw [← takeWhile_isDigit position, htexts, takeWhile_isDigit]

/-- The key and the value of an entry are apart. -/
theorem apart_mapKey_mapValue (position : Nat) : (mapKey position).Apart (mapValue position) := by
  refine apart_iff.mpr fun behind rest hsame => ?_
  simp [render] at hsame

end PathSegment

/-! ## Steps from one value -/

namespace Parts

/-- The children lie behind steps that are apart. -/
def StepsApart (children : List Child) : Prop :=
  children.Pairwise fun first second => first.segment.Apart second.segment

variable {value : Json}

theorem stepsApart_fields {declared : List Field} {entries : Entries}
    (hnodup : (declared.map Field.name).Nodup)
    (hwords : ∀ field ∈ declared, TypeText.IsWord field.name.toList) :
    StepsApart ((fields declared entries).children value) := by
  refine List.pairwise_filterMap.mpr ?_
  refine (List.pairwise_map.mp hnodup).imp_of_mem fun hfirst hsecond hne => ?_
  intro first hfirstChild second hsecondChild
  obtain ⟨_, -, rfl⟩ := Option.map_eq_some_iff.mp hfirstChild
  obtain ⟨_, -, rfl⟩ := Option.map_eq_some_iff.mp hsecondChild
  exact PathSegment.apart_field (hwords _ hfirst) (hwords _ hsecond) hne

theorem pairwise_position (items : List Json) :
    items.zipIdx.Pairwise fun first second => first.2 ≠ second.2 := by
  rw [List.pairwise_iff_getElem]
  intro first second hfirst hsecond hless
  simpa using Nat.ne_of_lt hless

theorem stepsApart_items {element : TypeReference} {stored : List Json} :
    StepsApart ((items element stored).children value) :=
  List.pairwise_map.mpr <| (pairwise_position stored).imp fun hne =>
    (PathSegment.numbered_index _).apart (PathSegment.numbered_index _) hne

theorem numbered_of_mem_childrenOfPair {key mapped : TypeReference} {index : Nat} {pair : Json}
    {child : Child} (h : child ∈ childrenOfPair key mapped index pair) :
    child.segment.Numbered index := by
  unfold childrenOfPair at h
  split at h
  · obtain rfl := List.mem_singleton.mp h
    exact PathSegment.numbered_mapKey index
  · rcases List.mem_cons.mp h with rfl | h
    · exact PathSegment.numbered_mapKey index
    · obtain rfl := List.mem_singleton.mp h
      exact PathSegment.numbered_mapValue index
  · exact absurd h List.not_mem_nil

theorem stepsApart_pairs {key mapped : TypeReference} {stored : List Json} :
    StepsApart ((pairs key mapped stored).children value) := by
  refine List.pairwise_flatMap.mpr ⟨fun (pair, index) _ => ?_, ?_⟩
  · show StepsApart (childrenOfPair key mapped index pair)
    unfold childrenOfPair
    split
    · exact List.pairwise_singleton _ _
    · exact List.pairwise_pair.mpr (PathSegment.apart_mapKey_mapValue index)
    · exact List.Pairwise.nil
  · refine (pairwise_position stored).imp fun hne first hfirst second hsecond => ?_
    exact (numbered_of_mem_childrenOfPair hfirst).apart (numbered_of_mem_childrenOfPair hsecond) hne

end Parts

namespace Registry

variable {registry : Registry} {reference : TypeReference} {value : Json}

/-- The steps from a value of a type are apart, if the fields of the type are distinct words. -/
theorem stepsApart_childValues (hnames : (registry.allFieldNames reference.handle).Nodup)
    (hwords : ∀ name ∈ registry.allFieldNames reference.handle, TypeText.IsWord name.toList) :
    Parts.StepsApart (registry.childValues reference value) := by
  unfold childValues
  cases hparts : registry.parts reference value with
  | none => exact List.Pairwise.nil
  | fields declared entries =>
      obtain rfl := eq_allFields_of_parts hparts
      exact Parts.stepsApart_fields hnames fun field hfield =>
        hwords _ (List.mem_map_of_mem hfield)
  | items element stored => exact Parts.stepsApart_items
  | payload alternative index held => exact List.pairwise_singleton _ _
  | pointee target => exact List.pairwise_singleton _ _
  | pairs key mapped stored => exact Parts.stepsApart_pairs

/-- Where the steps from every value are apart, everything inside a value has a text of its own. -/
theorem nodup_texts_reached
    (hapart : ∀ reference value, Parts.StepsApart (registry.childValues reference value))
    (closed : Barrier) (reference : TypeReference) (value : Json) :
    ((registry.reached closed reference value).map fun visit => visit.path.render).Nodup := by
  induction reference, value using registry.child_induction with
  | step reference value ih =>
      have htext : ∀ (child : Child) (visit : Visit),
          (visit.under ⟨[child.segment]⟩).path.render.toList =
            child.segment.render.toList ++ visit.path.render.toList := fun child visit =>
        ValuePath.toList_render_cons child.segment visit.path.segments
      rw [reached_eq, List.map_cons, List.map_flatMap]
      refine List.nodup_cons.mpr
        ⟨fun hmem => ?_, List.nodup_flatMap.mpr ⟨fun child hchild => ?_, ?_⟩⟩
      · -- a path of at least one step has a text that is not empty
        obtain ⟨child, -, hmem⟩ := List.mem_flatMap.mp hmem
        rw [List.map_map] at hmem
        obtain ⟨visit, -, hsame⟩ := List.mem_map.mp hmem
        obtain ⟨mark, text, hmark, -⟩ := child.segment.exists_mark
        have hlist := congrArg String.toList hsame
        rw [Function.comp_apply, htext, hmark] at hlist
        exact absurd hlist (by simp [ValuePath.render, ValuePath.root])
      · have hinner := ih child (mem_openChildren.mp hchild).1
        rw [List.map_map]
        refine List.Nodup.map_on (fun first hfirst second hsecond hsame => ?_) (hinner.of_map _)
        refine List.inj_on_of_nodup_map hinner hfirst hsecond (String.toList_inj.mp ?_)
        have hlist := congrArg String.toList hsame
        rw [Function.comp_apply, Function.comp_apply, htext, htext] at hlist
        exact List.append_cancel_left hlist
      · refine ((hapart reference value).sublist List.filter_sublist).imp ?_
        intro first second hfirst text hleft hright
        simp only [List.map_map, List.mem_map, Function.comp_apply] at hleft hright
        obtain ⟨visit, -, rfl⟩ := hleft
        obtain ⟨other, -, hsame⟩ := hright
        exact hfirst visit.path.segments other.path.segments hsame.symm

theorem nodup_texts_visits
    (hapart : ∀ reference value, Parts.StepsApart (registry.childValues reference value))
    (reference : TypeReference) (value : Json) :
    ((registry.visits reference value).map fun visit => visit.path.render).Nodup := by
  have hreached := nodup_texts_reached hapart noBarrier reference value
  rw [reached_eq_cons_visits, List.map_cons] at hreached
  exact (List.nodup_cons.mp hreached).2

end Registry
end LiveSchema
