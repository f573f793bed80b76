import LiveSchema.Proofs.Json.Integers
import LiveSchema.Proofs.Json.Numbers
import LiveSchema.Proofs.Schema.Words
import LiveSchema.Value.Description

/-!
# Numbers of enumerations

A stored number stands for the first enumerator that has it as its effective value.  When the values of
enumerators change, or one is taken out, a stored number follows the enumerators that are left.
-/

namespace LiveSchema

/-- What is left of a list if the item at a position goes. -/
def leftOf {α : Type} (gone : Option Nat) (list : List α) : List α :=
  gone.elim list list.eraseIdx

section LeftOf

variable {α β : Type} {gone : Option Nat} {list : List α} {a : α} {p : α → Bool}

theorem map_leftOf (f : α → β) : (leftOf gone list).map f = leftOf gone (list.map f) := by
  cases gone with
  | none => rfl
  | some index => exact (List.eraseIdx_map f list index).symm

theorem sublist_leftOf : (leftOf gone list).Sublist list := by
  cases gone with
  | none => exact .refl _
  | some index => exact List.eraseIdx_sublist list index

theorem find?_eraseIdx {index : Nat} (h : list.find? p = some a) (hkept : list[index]? ≠ some a) :
    (list.eraseIdx index).find? p = some a := by
  induction list generalizing index with
  | nil => exact absurd h (by simp)
  | cons first rest ih =>
      rw [List.find?_cons] at h
      cases index with
      | zero =>
          split at h
          next => exact absurd h hkept
          next => exact h
      | succ index =>
          rw [List.eraseIdx_cons_succ, List.find?_cons]
          split at h
          next => exact h
          next => exact ih h hkept

/-- The first item with a property is still the first one if it is left. -/
theorem find?_leftOf (h : list.find? p = some a) (hkept : gone.bind (list[·]?) ≠ some a) :
    (leftOf gone list).find? p = some a := by
  cases gone with
  | none => exact h
  | some index => exact find?_eraseIdx h hkept

/-- What is gone is not among the items that are left, if no item occurs twice. -/
theorem not_mem_leftOf (hnodup : list.Nodup) (h : gone.bind (list[·]?) = some a) :
    a ∉ leftOf gone list := by
  cases gone with
  | none => exact absurd h (by simp)
  | some index =>
      intro hmem
      obtain ⟨position, hne, hposition⟩ := List.mem_eraseIdx_iff_getElem?.mp hmem
      obtain ⟨hlt, -⟩ := List.getElem?_eq_some_iff.mp hposition
      exact hne ((List.getElem?_inj hlt hnodup).mp (hposition.trans h.symm))

/-- The first item with a property stands behind none that has it. -/
theorem exists_first_of_find? (h : list.find? p = some a) :
    ∃ position, list[position]? = some a ∧ ∀ other ∈ list.take position, p other = false := by
  obtain ⟨-, position, hposition, rfl, hbefore⟩ := List.find?_eq_some_iff_getElem.mp h
  refine ⟨position, List.getElem?_eq_getElem hposition, fun other hother => ?_⟩
  obtain ⟨earlier, hearlier, rfl⟩ := List.mem_take_iff_getElem.mp hother
  simpa using hbefore earlier (by omega)

/-- The item at a position is the first one with a property if none before it has it. -/
theorem find?_of_first {position : Nat} (h : list[position]? = some a) (hp : p a = true)
    (hbefore : ∀ other ∈ list.take position, p other = false) : list.find? p = some a := by
  obtain ⟨hlt, rfl⟩ := List.getElem?_eq_some_iff.mp h
  refine List.find?_eq_some_iff_getElem.mpr ⟨hp, position, hlt, rfl, fun earlier hearlier => ?_⟩
  rw [hbefore _ (List.mem_take_iff_getElem.mpr ⟨earlier, by omega, rfl⟩)]
  rfl

theorem not_mem_take {position : Nat} (hnodup : list.Nodup) (h : list[position]? = some a) :
    a ∉ list.take position := by
  intro hmem
  obtain ⟨earlier, hearlier, rfl⟩ := List.mem_take_iff_getElem.mp hmem
  have hlt : earlier < list.length := by omega
  have hsame := (List.getElem?_inj hlt hnodup).mp ((List.getElem?_eq_getElem hlt).trans h.symm)
  omega

end LeftOf

/-! ## Texts of numbers are no names -/

theorem Number.not_isWord_render (n : Number) : ¬ TypeText.IsWord n.render.toList := by
  rintro ⟨first, rest, htext, hfirst, -⟩
  obtain ⟨negative, magnitude, hrender, hmagnitude⟩ := Json.exists_magnitude n
  obtain ⟨digit, digits, rfl, hdigit⟩ := hmagnitude.starts
  have hstart : first = '-' ∨ first = digit := by
    rw [htext, Json.signed] at hrender
    split at hrender
    · exact Or.inl (List.cons.inj hrender).1
    · exact Or.inr (List.cons.inj hrender).1
  rcases hstart with rfl | rfl
  · exact absurd hfirst (by decide)
  · rw [TypeText.not_starts_of_isDigit hdigit] at hfirst
    exact absurd hfirst (by simp)

theorem Json.render_number (n : Number) : (Json.number n).render = n.render := by
  simp [Json.render, Json.write, Json.renderScalar]

namespace Enumeration

variable {enumeration : Enumeration}

theorem length_valuesFrom (next : Int64) (enumerators : List Enumerator) :
    (Enumerator.valuesFrom next enumerators).length = enumerators.length := by
  induction enumerators generalizing next with
  | nil => rfl
  | cons first rest ih => simp [Enumerator.valuesFrom, ih]

theorem length_values (enumeration : Enumeration) :
    enumeration.values.length = enumeration.enumerators.length :=
  length_valuesFrom 0 enumeration.enumerators

/-- Stored values follow the numbers of an enumeration.  Of the old enumerators, all are left but the
one at the position `gone`, if one is given; the new ones are those that are left, in their order. -/
structure Follows (substitute : Json → Json) (old new : Enumeration) (gone : Option Nat) : Prop where
  names : new.enumerators.map Enumerator.name = (leftOf gone old.enumerators).map Enumerator.name
  /-- The old number of enumerators that are left becomes the new number of the first of them. -/
  first : ∀ position number, (leftOf gone old.values)[position]? = some number →
    number ∉ (leftOf gone old.values).take position →
      ∃ target, new.values[position]? = some target ∧
        substitute (.ofInt number.toInt) = .ofInt target.toInt
  /-- A number that only the enumerator had that is gone becomes the new default. -/
  removed : ∀ number, gone.bind (old.values[·]?) = some number → number ∉ leftOf gone old.values →
    substitute (.ofInt number.toInt) = .ofInt new.defaultValue.toInt
  /-- Everything else stays as it is. -/
  other : ∀ value, (∀ number ∈ old.values, value ≠ .ofInt number.toInt) → substitute value = value

/-- The enumerators with their numbers. -/
def numbered (enumeration : Enumeration) : List (Enumerator × Int64) :=
  enumeration.enumerators.zip enumeration.values

theorem map_fst_numbered (enumeration : Enumeration) :
    enumeration.numbered.map Prod.fst = enumeration.enumerators :=
  List.map_fst_zip (Nat.le_of_eq enumeration.length_values.symm)

theorem map_snd_numbered (enumeration : Enumeration) :
    enumeration.numbered.map Prod.snd = enumeration.values :=
  List.map_snd_zip (Nat.le_of_eq enumeration.length_values)

theorem getElem?_numbered {index : Nat} {enumerator : Enumerator} {number : Int64} :
    enumeration.numbered[index]? = some (enumerator, number) ↔
      enumeration.enumerators[index]? = some enumerator ∧ enumeration.values[index]? = some number :=
  List.getElem?_zip_eq_some

theorem nameOfValue?_eq (enumeration : Enumeration) (value : Int) :
    enumeration.nameOfValue? value =
      (enumeration.numbered.find? fun entry => entry.2.toInt = value).map
        fun entry => entry.1.name := rfl

variable {old new : Enumeration} {gone : Option Nat} {substitute : Json → Json}

/-- What was described by the name of an enumerator that is left is described by it again, if the new
numbers are distinct. -/
theorem Follows.nameOfValue? (h : Follows substitute old new gone)
    (hnames : (old.enumerators.map Enumerator.name).Nodup) (hnumbers : new.values.Nodup)
    {number : Int64} {name : String} (hname : old.nameOfValue? number.toInt = some name)
    (hleft : name ∈ (leftOf gone old.enumerators).map Enumerator.name) :
    ∃ target : Int64, substitute (.ofInt number.toInt) = .ofInt target.toInt ∧
      new.nameOfValue? target.toInt = some name := by
  rw [nameOfValue?_eq] at hname
  obtain ⟨⟨own, held⟩, hfound, rfl⟩ := Option.map_eq_some_iff.mp hname
  obtain rfl : held = number := Int64.toInt_inj.mp (by simpa using List.find?_some hfound)
  -- the enumerator is left, because no other one has its name
  have hkept : gone.bind (old.numbered[·]?) ≠ some (own, held) := by
    intro hgone
    have hname : gone.bind ((old.enumerators.map Enumerator.name)[·]?) = some own.name := by
      obtain ⟨index, rfl, hindex⟩ := Option.bind_eq_some_iff.mp hgone
      rw [Option.bind_some, List.getElem?_map, (getElem?_numbered.mp hindex).1, Option.map_some]
    exact not_mem_leftOf hnames hname (map_leftOf Enumerator.name ▸ hleft)
  obtain ⟨position, hposition, hbefore⟩ := exists_first_of_find? (find?_leftOf hfound hkept)
  have hown : (leftOf gone old.enumerators)[position]? = some own := by
    rw [← map_fst_numbered, ← map_leftOf, List.getElem?_map, hposition, Option.map_some]
  have hheld : (leftOf gone old.values)[position]? = some held := by
    rw [← map_snd_numbered, ← map_leftOf, List.getElem?_map, hposition, Option.map_some]
  have hfirst : held ∉ (leftOf gone old.values).take position := by
    rw [← map_snd_numbered, ← map_leftOf, ← List.map_take]
    intro hearlier
    obtain ⟨other, hother, rfl⟩ := List.mem_map.mp hearlier
    simpa using hbefore other hother
  have hsame := congrArg (·[position]?) h.names
  simp only [List.getElem?_map, hown, Option.map_some] at hsame
  obtain ⟨renamed, hrenamed, hnameSame⟩ := Option.map_eq_some_iff.mp hsame
  obtain ⟨target, htarget, hsubstitute⟩ := h.first position held hheld hfirst
  refine ⟨target, hsubstitute, ?_⟩
  rw [nameOfValue?_eq]
  refine Option.map_eq_some_iff.mpr ⟨(renamed, target), ?_, hnameSame⟩
  refine find?_of_first (getElem?_numbered.mpr ⟨hrenamed, htarget⟩) (by simp) fun other hother => ?_
  have hother := List.mem_map_of_mem (f := Prod.snd) hother
  rw [List.map_take, map_snd_numbered] at hother
  refine decide_eq_false fun hsame => not_mem_take hnumbers htarget ?_
  exact Int64.toInt_inj.mp hsame ▸ hother

end Enumeration

namespace Registry

variable {before after : Registry} {type : TypeReference} {value : Json}
  {definition : TypeDefinition} {enumeration old new : Enumeration} {gone : Option Nat}
  {substitute : Json → Json}

theorem enumeration?_eq_some_iff {registry : Registry} {handle : TypeHandle} :
    (registry.get? handle).bind TypeDefinition.enumeration? = some enumeration ↔
      ∃ definition, registry.get? handle = some definition ∧
        definition.body = .enumeration enumeration := by
  refine Option.bind_eq_some_iff.trans (exists_congr fun definition => and_congr_right fun _ => ?_)
  unfold TypeDefinition.enumeration?
  split
  next held hheld => rw [hheld, Option.some.injEq, TypeBody.enumeration.injEq]
  next hother => exact ⟨fun h => absurd h (by simp), fun h => absurd h (hother _)⟩

section WellNamed

variable {registry : Registry} {handle : TypeHandle} (hnamed : registry.WellNamed)
  (h : (registry.get? handle).bind TypeDefinition.enumeration? = some enumeration)

include hnamed h

theorem WellNamed.distinct_enumerators : (enumeration.enumerators.map Enumerator.name).Nodup := by
  obtain ⟨definition, hfound, hbody⟩ := enumeration?_eq_some_iff.mp h
  exact hnamed.distinct hfound hbody

theorem WellNamed.isWord_enumerator :
    ∀ name ∈ enumeration.enumerators.map Enumerator.name, TypeText.IsWord name.toList := by
  obtain ⟨definition, hfound, hbody⟩ := enumeration?_eq_some_iff.mp h
  intro name hname
  refine ((hnamed handle definition hfound).enumerators name ?_).isWord
  simpa [TypeDefinition.enumerators, hbody] using hname

end WellNamed

/-- A value of an enumeration is described by the name of its enumerator, or else as it is stored. -/
theorem describe_enumeration {registry : Registry}
    (h : (registry.get? type.handle).bind TypeDefinition.enumeration? = some enumeration) :
    registry.describe type value =
      (value.signed?.bind enumeration.nameOfValue?).getD value.render := by
  obtain ⟨definition, hfound, hbody⟩ := enumeration?_eq_some_iff.mp h
  rw [describe, hfound]
  simp only [hbody]

/-- A value that was described by the name of an enumerator that is left is described by it again, if
the new numbers are distinct. -/
theorem describe_of_follows (hfollows : Enumeration.Follows substitute old new gone)
    (hold : (before.get? type.handle).bind TypeDefinition.enumeration? = some old)
    (hnew : (after.get? type.handle).bind TypeDefinition.enumeration? = some new)
    (hwords : ∀ name ∈ old.enumerators.map Enumerator.name, TypeText.IsWord name.toList)
    (hnames : (old.enumerators.map Enumerator.name).Nodup) (hnumbers : new.values.Nodup)
    {enumerator : Enumerator} (hleft : enumerator ∈ leftOf gone old.enumerators)
    (h : before.describe type value = enumerator.name) :
    after.describe type (substitute value) = enumerator.name := by
  rw [describe_enumeration hold] at h
  rw [describe_enumeration hnew]
  have hmem := List.mem_map_of_mem (f := Enumerator.name) hleft
  cases hsigned : value.signed? with
  | none =>
      rw [hfollows.other value fun number _ hsame => ?_]
      · simpa [hsigned] using h
      · rw [hsame, Json.signed?_ofInt_toInt] at hsigned
        exact absurd hsigned (by simp)
  | some held =>
      obtain ⟨number, rfl, rfl⟩ := Json.exists_of_signed? hsigned
      rw [hsigned, Option.bind_some] at h
      cases hname : old.nameOfValue? number.toInt with
      | none =>
          -- the text of a number is not the name of an enumerator
          rw [hname, Option.getD_none, Json.ofInt_toInt, Json.render_number] at h
          have hword := hwords _ ((List.Sublist.map _ sublist_leftOf).subset hmem)
          rw [← h] at hword
          exact absurd hword (Number.not_isWord_render _)
      | some name =>
          rw [hname, Option.getD_some] at h
          subst h
          obtain ⟨target, htarget, hagain⟩ := hfollows.nameOfValue? hnames hnumbers hname hmem
          rw [htarget, Json.signed?_ofInt_toInt, Option.bind_some, hagain, Option.getD_some]

end Registry
end LiveSchema
