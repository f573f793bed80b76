import LiveSchema.Proofs.Atomicity
import LiveSchema.Proofs.LegalNames
import LiveSchema.Proofs.Mutation.Renumbering

/-!
# Numbers of enumerators

When an enumerator gets another value, or is deleted, the stored numbers of its enumeration follow the
enumerators that are left, in all stores and at any depth.  Nothing else changes, and as long as the new
numbers are distinct, every value that named an enumerator goes on naming it.
-/

namespace LiveSchema
namespace Database

open Registry

variable {digest : String → String} {database : Database}

/-- In every database that can be reached, changing the value of an enumerator, or deleting one, changes
the stored values of its enumeration, all at once, as they follow the enumerators that are left.  They
lie where they lay before, and nothing else in the stores changes.  If no two enumerators have one
number then, whatever was described by the name of an enumerator that is left still is. -/
theorem renumbered_of_reachable (hreachable : Reachable digest database) (time : Timestamp)
    (files : Directory) {mutation : Mutation} {handle : TypeHandle} {gone : Option Nat}
    (hrenumbers : mutation.renumbers? = some (handle, gone)) {answer : Answer}
    (h : (database.apply digest time files mutation).outcome = .ok answer) :
    let before := database.content
    let after := (database.apply digest time files mutation).database.content
    let concerned := fun type : TypeReference => decide (type.handle = handle)
    let sites := fun content : Content => content.stores.sites fun root =>
      (⟨root.type, .root, root.value⟩ :: content.registry.visits root.type root.value).filter
        fun visit => concerned visit.type
    ∃ old new : Enumeration, ∃ substitute : Json → Json,
      (before.registry.get? handle).bind TypeDefinition.enumeration? = some old ∧
        (after.registry.get? handle).bind TypeDefinition.enumeration? = some new ∧
        Enumeration.Follows substitute old new gone ∧
        after.stores = before.stores.changedAt before.registry noBarrier concerned
          (fun value _ => substitute value) ∧
        sites after = (sites before).map (fun site =>
          { site with value := substitute site.value }) ∧
        (new.values.Nodup → ∀ site ∈ sites before, ∀ enumerator ∈ leftOf gone old.enumerators,
          before.registry.describe site.type site.value = enumerator.name →
            after.registry.describe site.type (substitute site.value) = enumerator.name) := by
  intro before after concerned sites
  obtain ⟨change, -, hchange, hcontent, -⟩ := carriedOut_and_recorded h
  have hsame : after = change.content := hcontent
  have hsites : ∀ content : Content,
      sites content = content.stores.reachedSites content.registry noBarrier concerned :=
    fun content => Stores.reachedSites_noBarrier.symm
  obtain ⟨old, new, substitute, hold, hnew, hfollows, hstores, hmoved⟩ :=
    Mutation.exists_substitute_carryOut hreachable.wellFormed hrenumbers hchange
  rw [hsame, hsites, hsites]
  refine ⟨old, new, substitute, hold, hnew, hfollows, hstores, hmoved,
    fun hnumbers site hsite enumerator hleft hdescribed => ?_⟩
  obtain ⟨-, -, -, -, hconcerned⟩ := Stores.mem_reachedSites hsite
  obtain rfl : site.type.handle = handle := of_decide_eq_true hconcerned
  have hnamed := hreachable.wellNamed.types
  exact describe_of_follows hfollows hold hnew (hnamed.isWord_enumerator hold)
    (hnamed.distinct_enumerators hold) hnumbers hleft hdescribed

/-! ## An enumerator that gets another value -/

/-- An enumeration with two enumerators. -/
def enumerated : Database :=
  let added := (inMemory.apply id ⟨0, 0⟩ NameMap.empty .addEnum).database
  let first := (added.apply id ⟨1, 0⟩ NameMap.empty (.addEnumerator ⟨37⟩)).database
  (first.apply id ⟨2, 0⟩ NameMap.empty (.addEnumerator ⟨37⟩)).database

def twoValues : Enumeration := ⟨[⟨"Value1", none, ""⟩, ⟨"Value2", none, ""⟩]⟩

theorem get?_enumerated : enumerated.content.registry.get? ⟨37⟩ =
    some { name := "Enum1", body := .enumeration twoValues } := by
  decide +kernel

/-- A root that holds the default of the enumeration. -/
def storedNumber : Database :=
  (enumerated.apply id ⟨3, 0⟩ NameMap.empty (.addRoot "main" "r" (.plain ⟨37⟩))).database

theorem reachable_storedNumber : Reachable id storedNumber := by
  have hadded : Reachable id _ := Reachable.fresh.step ⟨0, 0⟩ NameMap.empty .addEnum
  have hfirst := hadded.step ⟨1, 0⟩ NameMap.empty (.addEnumerator ⟨37⟩)
  have hsecond := hfirst.step ⟨2, 0⟩ NameMap.empty (.addEnumerator ⟨37⟩)
  exact hsecond.step ⟨3, 0⟩ NameMap.empty (.addRoot "main" "r" (.plain ⟨37⟩))

theorem content_storedNumber : storedNumber.content = {
    registry := enumerated.content.registry
    stores := enumerated.content.stores.insert "main"
      (NameMap.insert NameMap.empty "r" ⟨.plain ⟨37⟩, .ofInt 0⟩) } := by
  have hdefault : enumerated.content.registry.defaultValue (.plain ⟨37⟩) = .ofInt 0 := by
    rw [defaultValue, default?, defaultWithin?_enumeration get?_enumerated rfl]
    rfl
  have hsize : enumerated.content.registry.defaultSize (.plain ⟨37⟩) = 1 := by
    rw [defaultSize, sizeWithin]
    split
    next => rfl
    next hfound =>
        obtain rfl := Option.some.inj (get?_enumerated.symm.trans hfound)
        rfl
  exact content_addRoot _ _ rfl (by decide +kernel) rfl (by decide) (hsize ▸ by decide)
    hdefault

/-- The numbers after the first enumerator got the value five. -/
def shiftedValues : Enumeration := ⟨[⟨"Value1", some 5, ""⟩, ⟨"Value2", none, ""⟩]⟩

/-- The first enumerator gets the value five.  The root that held its old number holds the new one, and is
described by its name as before. -/
theorem renumbered_of_storedNumber :
    let applied := storedNumber.apply id ⟨4, 0⟩ NameMap.empty (.setEnumeratorValue ⟨37⟩ 0 (some 5))
    (∃ answer, applied.outcome = .ok answer) ∧
      storedNumber.content.stores.root? "main" "r" = some ⟨.plain ⟨37⟩, .ofInt 0⟩ ∧
      applied.database.content.stores.root? "main" "r" = some ⟨.plain ⟨37⟩, .ofInt 5⟩ ∧
      storedNumber.content.registry.describe (.plain ⟨37⟩) (.ofInt 0) = "Value1" ∧
      applied.database.content.registry.describe (.plain ⟨37⟩) (.ofInt 5) = "Value1" := by
  intro applied
  have hbefore : storedNumber.content.registry.get? ⟨37⟩ =
      some { name := "Enum1", body := .enumeration twoValues } := by
    rw [content_storedNumber]
    exact get?_enumerated
  have hroot : storedNumber.content.stores.root? "main" "r" = some ⟨.plain ⟨37⟩, .ofInt 0⟩ := by
    rw [content_storedNumber]
    rfl
  obtain ⟨change, hchange, hshifted⟩ : ∃ change, Mutation.carryOut storedNumber.content
      (.setEnumeratorValue ⟨37⟩ 0 (some 5)) = .ok change ∧
        (change.content.registry.get? ⟨37⟩).bind TypeDefinition.enumeration? =
          some shiftedValues := by
    rw [content_storedNumber]
    exact ⟨_, rfl, rfl⟩
  have hafter : applied.database.content = change.content := apply_content_of_carryOut _ _ hchange
  have hdone : applied.outcome = .ok change.answer :=
    outcome_of_carryOut reachable_storedNumber.project_eq_none ⟨4, 0⟩ NameMap.empty hchange
  obtain ⟨old, new, substitute, hold, hnew, hfollows, hstores, hsites, hdescribed⟩ :=
    renumbered_of_reachable reachable_storedNumber ⟨4, 0⟩ NameMap.empty rfl hdone
  obtain rfl : twoValues = old := by
    rw [hbefore] at hold
    exact Option.some.inj hold
  obtain rfl : shiftedValues = new :=
    Option.some.inj (hshifted.symm.trans (hafter ▸ hnew))
  have hnumber : substitute (.ofInt 0) = .ofInt 5 := by
    obtain ⟨target, htarget, hsubstitute⟩ := hfollows.first 0 0 rfl (by simp)
    obtain rfl := Option.some.inj htarget
    exact hsubstitute
  have hreached : reachedIn storedNumber.content.registry noBarrier
      (fun type => type.handle = ⟨37⟩) ⟨.plain ⟨37⟩, .ofInt 0⟩ =
        [⟨.plain ⟨37⟩, .root, .ofInt 0⟩] := by
    have hkind : storedNumber.content.registry.kind? ⟨37⟩ = some .enumeration := by
      rw [kind?_of_get? hbefore]
      rfl
    rw [reachedIn, reached_eq, openChildren_noBarrier, childValues, parts_of_enumeration hkind]
    rfl
  have hname : storedNumber.content.registry.describe (.plain ⟨37⟩) (.ofInt 0) = "Value1" := by
    rw [describe_enumeration hold]
    rfl
  refine ⟨⟨_, hdone⟩, hroot, ?_, hname, ?_⟩
  · rw [hstores, Stores.changedAt, Stores.root?_mapRoots, hroot, Option.map_some, hreached]
    exact congrArg (fun value => some (Root.mk _ value)) hnumber
  · rw [← hnumber]
    refine hdescribed (by decide) ⟨⟨"main", "r", .root⟩, .plain ⟨37⟩, .ofInt 0⟩ ?_
      ⟨"Value1", none, ""⟩ (by decide) hname
    exact Stores.mem_sites.mpr ⟨_, hroot, List.mem_filter.mpr ⟨List.mem_cons_self, rfl⟩⟩

end Database
end LiveSchema
