import LiveSchema.Proofs.Reachable
import LiveSchema.Proofs.Schema.Compact
import LiveSchema.Proofs.Schema.Needs
import Mathlib.Data.List.Dedup

/-!
# The order of emission

The search for an order keeps a plan: the types that were put in order, and behind them what is still to
be done.  In a plan every type stands behind the types that it needs.  A visit is replaced by visits of
the types needed and the type itself, or dropped because the type is in the plan already; were it only
behind a type that needs it, then types would need each other in a circle.
-/

namespace LiveSchema
namespace Registry

open Relation

namespace Placing

/-- The type that is to be placed. -/
def handle : Placing → TypeHandle
  | visit handle => handle
  | emit handle => handle

/-- The type that is put in order at once. -/
def emitted? : Placing → Option TypeHandle
  | visit _ => none
  | emit handle => some handle

end Placing

section Plans

variable {needs : TypeHandle → TypeHandle → Prop} {wanted done more : List TypeHandle}
  {plan rest : List Placing} {handle : TypeHandle}

/-- Every wanted type that a type in the plan needs stands before it, in the plan or among those done
before. -/
def Ready (needs : TypeHandle → TypeHandle → Prop) (wanted : List TypeHandle) :
    List TypeHandle → List Placing → Prop
  | _, [] => True
  | done, .visit handle :: rest => Ready needs wanted (handle :: done) rest
  | done, .emit handle :: rest =>
    (∀ part, needs handle part → part ∈ wanted → part ∈ done) ∧
      Ready needs wanted (handle :: done) rest

/-- Whatever is put in order behind something is on the way to it. -/
def Stacked (needs : TypeHandle → TypeHandle → Prop) (stack : List Placing) : Prop :=
  stack.Pairwise fun upper lower => ∀ user, lower = .emit user → TransGen needs user upper.handle

/-- Only the wanted types among those done count. -/
theorem Ready.of_covered (h : Ready needs wanted more plan)
    (hcovered : ∀ a ∈ more, a ∈ wanted → a ∈ done) : Ready needs wanted done plan := by
  induction plan generalizing more done with
  | nil => trivial
  | cons first rest ih =>
      have hnext : ∀ handle, ∀ a ∈ handle :: more, a ∈ wanted → a ∈ handle :: done := by
        intro handle a ha hwanted
        rcases List.mem_cons.mp ha with rfl | ha
        · exact List.mem_cons_self
        · exact List.mem_cons_of_mem _ (hcovered a ha hwanted)
      cases first with
      | visit handle => exact ih h (hnext handle)
      | emit handle =>
          exact ⟨fun part hneeds hwanted => hcovered part (h.1 part hneeds hwanted) hwanted,
            ih h.2 (hnext handle)⟩

theorem ready_append : Ready needs wanted done (plan ++ rest) ↔
    Ready needs wanted done plan ∧
      Ready needs wanted ((plan.map Placing.handle).reverse ++ done) rest := by
  induction plan generalizing done with
  | nil => simp [Ready]
  | cons first plan ih =>
      cases first with
      | visit handle => simp [Ready, Placing.handle, ih]
      | emit handle => simp [Ready, Placing.handle, ih, and_assoc]

theorem ready_visits (types : List TypeHandle) :
    Ready needs wanted done (types.map .visit) := by
  induction types generalizing done with
  | nil => trivial
  | cons first rest ih => exact ih

/-- A type in a plan without circles need not be visited before. -/
theorem Ready.drop_visit (h : Ready needs wanted (handle :: done) rest) (hacyclic : Acyclic needs)
    (hstacked : Stacked needs rest) (hlater : .emit handle ∈ rest) :
    Ready needs wanted done rest := by
  induction rest generalizing done with
  | nil => exact absurd hlater List.not_mem_nil
  | cons first rest ih =>
      obtain ⟨hfirst, hrest⟩ := List.pairwise_cons.mp hstacked
      cases first with
      | visit other =>
          refine ih (Ready.of_covered (h : Ready needs wanted (other :: handle :: done) rest) ?_)
            hrest (by simpa using hlater)
          exact fun a ha _ => by simpa [or_left_comm] using ha
      | emit user =>
          obtain ⟨hneeded, hbehind⟩ := h
          refine ⟨fun part hneeds hwanted => ?_, ?_⟩
          · refine (List.mem_cons.mp (hneeded part hneeds hwanted)).resolve_left ?_
            rintro rfl
            -- the type put in order later would need the one that needs it
            rcases List.mem_cons.mp hlater with hsame | hlater
            · cases hsame
              exact hacyclic user (.single hneeds)
            · exact hacyclic user (TransGen.head hneeds (hfirst _ hlater part rfl))
          · by_cases hsame : handle = user
            · exact hbehind.of_covered fun a ha _ => by simpa [hsame] using ha
            · refine ih (hbehind.of_covered fun a ha _ => ?_) hrest ?_
              · simpa [or_left_comm] using ha
              · exact (List.mem_cons.mp hlater).resolve_left fun h => hsame (Placing.emit.inj h)

/-- The types that a plan puts in order at once. -/
def emits (plan : List Placing) : List TypeHandle :=
  plan.filterMap Placing.emitted?

theorem mem_emits : handle ∈ emits plan ↔ .emit handle ∈ plan := by
  rw [emits, List.mem_filterMap]
  constructor
  · rintro ⟨placing, hmem, hemitted⟩
    cases placing with
    | visit _ => exact absurd hemitted (by simp [Placing.emitted?])
    | emit other => exact Option.some.inj hemitted ▸ hmem
  · exact fun hmem => ⟨_, hmem, rfl⟩

@[simp] theorem emits_map_visit (types : List TypeHandle) :
    emits (types.map .visit) = [] := by
  induction types with
  | nil => rfl
  | cons first rest ih => exact ih

@[simp] theorem emits_map_emit (types : List TypeHandle) :
    emits (types.map .emit) = types := by
  induction types with
  | nil => rfl
  | cons first rest ih => exact congrArg (first :: ·) ih

theorem emits_append (plan rest : List Placing) :
    emits (plan ++ rest) = emits plan ++ emits rest :=
  List.filterMap_append

end Plans

/-! ## The search -/

variable {registry : Registry} {needs : TypeHandle → TypeHandle → Prop}
  {wanted closed ordered : List TypeHandle} {stack rest : List Placing} {handle : TypeHandle}

/-- Of the types that are not closed, one is taken. -/
theorem filter_not_mem_perm (hwanted : handle ∈ wanted) (hfresh : handle ∉ closed) :
    (wanted.dedup.filter fun a => a ∉ closed).Perm
      (handle :: wanted.dedup.filter fun a => a ∉ handle :: closed) := by
  have hnodup := wanted.nodup_dedup
  refine (List.perm_ext_iff_of_nodup (hnodup.filter _) ?_).mpr fun a => ?_
  · exact List.nodup_cons.mpr ⟨by simp, hnodup.filter _⟩
  · by_cases hsame : a = handle
    · simp [hsame, hwanted, hfresh]
    · simp [hsame]

/-- Behind the types that are in order, and those that are on the way to it, come the wanted types that
are not closed, each once. -/
theorem placeFrom_perm (hcovered : ∀ a ∈ wanted, a ∈ closed ∨ .visit a ∈ stack) :
    (registry.placeFrom wanted closed ordered stack).Perm
      (ordered ++ (emits stack ++ wanted.dedup.filter fun a => a ∉ closed)) := by
  fun_induction registry.placeFrom wanted closed ordered stack with
  | case1 closed ordered =>
      have hnone : (wanted.dedup.filter fun a => a ∉ closed) = [] := by
        refine List.filter_eq_nil_iff.mpr fun a ha => ?_
        simpa using (hcovered a (List.mem_dedup.mp ha)).resolve_right List.not_mem_nil
      rw [hnone]
      simp [emits]
  | case2 closed ordered handle rest ih =>
      have hrest := ih fun a ha => by simpa using hcovered a ha
      rwa [List.append_assoc, List.singleton_append, ← List.cons_append] at hrest
  | case3 closed ordered handle rest hfresh _ ih =>
      have hrest := ih fun a ha => ?_
      · rw [emits_append, emits_map_visit, List.nil_append] at hrest
        refine hrest.trans (List.Perm.append_left ordered ?_)
        exact List.perm_middle.symm.trans
          (List.Perm.append_left (emits rest) (filter_not_mem_perm hfresh.1 hfresh.2).symm)
      · rcases hcovered a ha with hclosed | hvisit
        · exact Or.inl (List.mem_cons_of_mem _ hclosed)
        · rcases List.mem_cons.mp hvisit with hsame | hvisit
          · cases hsame
            exact Or.inl List.mem_cons_self
          · exact Or.inr (List.mem_append_right _ (List.mem_cons_of_mem _ hvisit))
  | case4 closed ordered handle rest hstale ih =>
      refine ih fun a ha => ?_
      rcases hcovered a ha with hclosed | hvisit
      · exact Or.inl hclosed
      · rcases List.mem_cons.mp hvisit with hsame | hvisit
        · cases hsame
          exact Or.inl (by_contra fun hopen => hstale ⟨ha, hopen⟩)
        · exact Or.inr hvisit

/-- An order has each type once, also where types need each other in circles. -/
theorem order_perm_dedup (registry : Registry) (types : List TypeHandle) :
    (registry.order types).Perm types.dedup := by
  have hperm : (registry.placeFrom types [] [] (types.map .visit)).Perm
      ([] ++ (emits (types.map .visit) ++ types.dedup.filter fun a => a ∉ [])) :=
    placeFrom_perm fun a ha => Or.inr (List.mem_map_of_mem ha)
  simpa [order] using hperm

/-! ## The invariant -/

/-- The types put in order, and behind them what is still to be done. -/
def plan (ordered : List TypeHandle) (stack : List Placing) : List Placing :=
  ordered.map .emit ++ stack

/-- The invariant of the search. -/
structure Placement (needs : TypeHandle → TypeHandle → Prop)
    (wanted closed ordered : List TypeHandle) (stack : List Placing) : Prop where
  closed_iff : ∀ a, a ∈ closed ↔ a ∈ emits (plan ordered stack)
  ready : Ready needs wanted [] (plan ordered stack)
  stacked : Stacked needs stack

theorem emits_plan (ordered : List TypeHandle) (stack : List Placing) :
    emits (plan ordered stack) = ordered ++ emits stack := by
  rw [plan, emits_append, emits_map_emit]

/-- The type on top is put in order. -/
theorem Placement.emit (h : Placement needs wanted closed ordered (.emit handle :: rest)) :
    Placement needs wanted closed (ordered ++ [handle]) rest := by
  have hplan : plan (ordered ++ [handle]) rest = plan ordered (.emit handle :: rest) := by
    simp [plan]
  refine ⟨?_, ?_, (List.pairwise_cons.mp h.stacked).2⟩
  · rw [hplan]
    exact h.closed_iff
  · rw [hplan]
    exact h.ready

/-- The type on top is closed, and what it needs is to be placed before it. -/
theorem Placement.open
    (hneeds : ∀ part, part ∈ registry.requiredDependencies handle ↔ needs handle part)
    (h : Placement needs wanted closed ordered (.visit handle :: rest)) :
    Placement needs wanted (handle :: closed) ordered
      ((registry.requiredDependencies handle).map .visit ++ .emit handle :: rest) := by
  have hold : emits (plan ordered (.visit handle :: rest)) = ordered ++ emits rest := by
    rw [emits_plan]
    rfl
  have hnew : emits (plan ordered
      ((registry.requiredDependencies handle).map .visit ++ .emit handle :: rest)) =
        ordered ++ handle :: emits rest := by
    rw [emits_plan, emits_append, emits_map_visit]
    rfl
  refine ⟨fun a => ?_, ?_, ?_⟩
  · rw [hnew, List.mem_cons, h.closed_iff a, hold, List.mem_append, List.mem_append,
      List.mem_cons, or_left_comm]
  · obtain ⟨hbefore, hbehind⟩ := ready_append.mp h.ready
    refine ready_append.mpr ⟨hbefore, ready_append.mpr ⟨ready_visits _, fun part hneeded _ => ?_, ?_⟩⟩
    · have hpart := (hneeds part).mpr hneeded
      exact List.mem_append_left _ (by simpa [Placing.handle] using hpart)
    · refine Ready.of_covered hbehind fun a ha _ => ?_
      rcases List.mem_cons.mp ha with rfl | ha
      · exact List.mem_cons_self
      · exact List.mem_cons_of_mem _ (List.mem_append_right _ ha)
  · obtain ⟨habove, hrest⟩ := List.pairwise_cons.mp h.stacked
    refine List.pairwise_append.mpr ⟨?_, List.pairwise_cons.mpr ⟨habove, hrest⟩, ?_⟩
    · refine List.pairwise_map.mpr (List.pairwise_of_forall fun _ _ user hsame => ?_)
      exact absurd hsame (by simp)
    · intro upper hupper lower hlower user hsame
      obtain ⟨part, hpart, rfl⟩ := List.mem_map.mp hupper
      have hneeded := (hneeds part).mp hpart
      rcases List.mem_cons.mp hlower with rfl | hlower
      · cases hsame
        exact .single hneeded
      · exact (habove lower hlower user hsame).tail hneeded

/-- The type on top is closed already or not wanted. -/
theorem Placement.skip (hacyclic : Acyclic needs)
    (h : Placement needs wanted closed ordered (.visit handle :: rest))
    (hstale : ¬ (handle ∈ wanted ∧ handle ∉ closed)) :
    Placement needs wanted closed ordered rest := by
  have hplan : emits (plan ordered (.visit handle :: rest)) = emits (plan ordered rest) := by
    rw [emits_plan, emits_plan]
    rfl
  have hclosed := h.closed_iff
  rw [hplan] at hclosed
  have hrest := (List.pairwise_cons.mp h.stacked).2
  refine ⟨hclosed, ?_, hrest⟩
  obtain ⟨hbefore, hbehind⟩ := ready_append.mp h.ready
  refine ready_append.mpr ⟨hbefore, ?_⟩
  by_cases hlater : .emit handle ∈ rest
  · exact Ready.drop_visit hbehind hacyclic hrest hlater
  · -- the type is in order already if it is wanted
    refine Ready.of_covered hbehind fun a ha hwanted => ?_
    rcases List.mem_cons.mp ha with rfl | ha
    · have hdone : a ∈ closed := by_contra fun hopen => hstale ⟨hwanted, hopen⟩
      rw [hclosed, emits_plan, List.mem_append, mem_emits] at hdone
      simpa [Placing.handle] using hdone.resolve_right hlater
    · exact ha

/-- The search keeps its invariant until nothing is left to be done. -/
theorem Placement.placeFrom
    (hneeds : ∀ handle ∈ wanted, ∀ part, part ∈ registry.requiredDependencies handle ↔
      needs handle part)
    (hacyclic : Acyclic needs) (h : Placement needs wanted closed ordered stack) :
    ∃ all, Placement needs wanted all (registry.placeFrom wanted closed ordered stack) [] := by
  fun_induction registry.placeFrom wanted closed ordered stack with
  | case1 closed ordered => exact ⟨closed, h⟩
  | case2 closed ordered handle rest ih => exact ih h.emit
  | case3 closed ordered handle rest hfresh _ ih => exact ih (h.open (hneeds handle hfresh.1))
  | case4 closed ordered handle rest hstale ih => exact ih (h.skip hacyclic hstale)

theorem placement_start (needs : TypeHandle → TypeHandle → Prop) (types : List TypeHandle) :
    Placement needs types [] [] (types.map .visit) where
  closed_iff := by simp [plan]
  ready := ready_visits types
  stacked := List.pairwise_map.mpr (List.pairwise_of_forall fun _ _ user hsame =>
    absurd hsame (by simp))

/-- In an order without anything left to be done, each type stands behind what it needs. -/
theorem Ready.mem_of_needs {done before after : List TypeHandle}
    (h : Ready needs wanted done (ordered.map .emit))
    (hsplit : ordered = before ++ handle :: after) {part : TypeHandle} (hneeds : needs handle part)
    (hwanted : part ∈ wanted) : part ∈ before ∨ part ∈ done := by
  subst hsplit
  rw [List.map_append, ready_append] at h
  simpa [Placing.handle, Function.comp_def] using h.2.1 part hneeds hwanted

/-! ## The order -/

/-- Where the types of a list do not need each other in circles, their order has every type once, behind
the types that it needs. -/
theorem order_spec_of_acyclic {types : List TypeHandle}
    (hneeds : ∀ handle ∈ types, ∀ part, part ∈ registry.requiredDependencies handle ↔
      needs handle part)
    (hacyclic : Acyclic needs) :
    (registry.order types).Nodup ∧ (∀ a, a ∈ registry.order types ↔ a ∈ types) ∧
      ∀ before handle after, registry.order types = before ++ handle :: after →
        ∀ part ∈ types, needs handle part → part ∈ before := by
  obtain ⟨all, h⟩ : ∃ all, Placement needs types all (registry.order types) [] :=
    (placement_start needs types).placeFrom hneeds hacyclic
  have hperm := registry.order_perm_dedup types
  refine ⟨hperm.nodup_iff.mpr types.nodup_dedup, fun a => hperm.mem_iff.trans List.mem_dedup,
    fun before handle after hsplit part hpart hneeded => ?_⟩
  have hready := h.ready
  rw [plan, List.append_nil] at hready
  exact (hready.mem_of_needs hsplit hneeded hpart).resolve_right List.not_mem_nil

/-- An order has every type once, behind the types that it needs. -/
theorem WellFormed.order_spec (hwf : registry.WellFormed) (types : List TypeHandle) :
    (registry.order types).Nodup ∧ (∀ a, a ∈ registry.order types ↔ a ∈ types) ∧
      ∀ before handle after, registry.order types = before ++ handle :: after →
        ∀ part ∈ types, registry.Needs handle part → part ∈ before :=
  order_spec_of_acyclic (fun _ _ _ => hwf.toFormed.mem_requiredDependencies) hwf.acyclic_needs

/-- The types needed stand before a type, also those that are needed by what it needs. -/
theorem WellFormed.mem_before_of_needs (hwf : registry.WellFormed) {before after : List TypeHandle}
    (hsplit : registry.emissionOrder = before ++ handle :: after) {part : TypeHandle}
    (hpart : part ∈ registry.userTypes) (hpath : TransGen registry.Needs handle part) :
    part ∈ before := by
  obtain ⟨-, -, hbefore⟩ := hwf.order_spec registry.userTypes
  induction hpath using TransGen.head_induction_on generalizing before after with
  | single hneeds => exact hbefore before _ after hsplit part hpart hneeds
  | @head handle next hneeds hrest ih =>
      -- the next type on the way needs something, so it is a record and stands before the type
      obtain ⟨further, hfurther, -⟩ := TransGen.head'_iff.mp hrest
      obtain ⟨definition, hfound, hrecord⟩ := hwf.toFormed.isRecord_of_needs hfurther
      have hnext := hbefore before handle after hsplit next
        (mem_userTypes.mpr ⟨definition, hfound, TypeDefinition.isBuiltin_of_isRecord hrecord⟩) hneeds
      obtain ⟨first, second, rfl⟩ := List.append_of_mem hnext
      have hearlier : registry.emissionOrder = first ++ next :: (second ++ handle :: after) := by
        simp [hsplit]
      exact List.mem_append_left _ (ih hearlier)

end Registry

namespace Database

open Relation

variable {digest : String → String} {database : Database}

/-- In every database that can be reached, the order of emission lists the user types, each once, and
before each of them stand its base type and all user types that it needs complete, directly or not. -/
theorem emissionOrder_of_reachable (h : Reachable digest database) :
    database.content.registry.emissionOrder.Nodup ∧
      (∀ type, type ∈ database.content.registry.emissionOrder ↔
        type ∈ database.content.registry.userTypes) ∧
      ∀ before type after, database.content.registry.emissionOrder = before ++ type :: after →
        (∀ base, database.content.registry.baseOf? type = some base → base ∈ before) ∧
          ∀ part ∈ database.content.registry.userTypes,
            TransGen database.content.registry.Needs type part → part ∈ before := by
  have hwf := h.wellFormed
  obtain ⟨hnodup, hmem, -⟩ := hwf.order_spec database.content.registry.userTypes
  refine ⟨hnodup, hmem, fun before type after hsplit => ⟨fun base hbase => ?_,
    fun part hpart hpath => hwf.mem_before_of_needs hsplit hpart hpath⟩⟩
  obtain ⟨-, definition, -, hfound, -, hrecord, -⟩ := hwf.toFormed.record_of_baseOf? hbase
  have huser := TypeDefinition.isBuiltin_of_isRecord hrecord
  exact hwf.mem_before_of_needs hsplit (Registry.mem_userTypes.mpr ⟨definition, hfound, huser⟩)
    (.single (.base hbase))

/-- A struct that holds one declared after it comes after that one. -/
theorem emissionOrder_of_struct_holding_later :
    let prepared := ([.addStruct, .addStruct, .addField ⟨37⟩] : List Mutation).foldl
      (fun database mutation => (database.apply id ⟨0, 0⟩ NameMap.empty mutation).database) inMemory
    let database := (prepared.apply id ⟨0, 0⟩ NameMap.empty
      (.setFieldType ⟨37⟩ "field1" (.plain ⟨38⟩))).database
    database.content.registry.Needs ⟨37⟩ ⟨38⟩ ∧
      (⟨37⟩ : TypeHandle) ∈ database.content.registry.emissionOrder ∧
      ∀ before after, database.content.registry.emissionOrder = before ++ ⟨37⟩ :: after →
        ⟨38⟩ ∈ before := by
  intro prepared database
  have hprepared : Reachable id prepared :=
    ((Reachable.fresh.step ⟨0, 0⟩ NameMap.empty .addStruct).step ⟨0, 0⟩ NameMap.empty
      .addStruct).step ⟨0, 0⟩ NameMap.empty (.addField ⟨37⟩)
  have hreachable : Reachable id database :=
    hprepared.step ⟨0, 0⟩ NameMap.empty (.setFieldType ⟨37⟩ "field1" (.plain ⟨38⟩))
  let declared := ofStructs ["Struct1", "Struct2"]
  let extended := declared.modifyFields ⟨37⟩ fun fields =>
    fields ++ [⟨"field1", .plain Registry.void, .empty, ""⟩]
  have hname : Content.freshFieldName declared ⟨37⟩ = "field1" :=
    Registry.freshFieldName_of_no_fields ⟨_, rfl, rfl⟩ rfl (by decide)
  have hextended : prepared.HasOnlyTypes extended :=
    (hasOnlyTypes_of_two_structs ⟨0, 0⟩ ⟨0, 0⟩).addField ⟨0, 0⟩ NameMap.empty rfl hname
  have hcheck : Legality.checkFieldType extended ⟨37⟩ (some (.plain ⟨38⟩)) = .ok () :=
    Legality.checkFieldType_eq_ok.mpr ⟨⟨_, rfl, rfl⟩, rfl,
      Registry.findOpen?_plain_eq_none (by decide) (by decide)⟩
  have hregistry : database.content.registry = extended.modifyFields ⟨37⟩
      (fun fields => fields.modify 0 fun own => { own with type := .plain ⟨38⟩ }) :=
    (hextended.setFieldType ⟨0, 0⟩ NameMap.empty rfl hcheck rfl).registry_eq
  have htypes : database.content.registry.userTypes = [⟨37⟩, ⟨38⟩] := by
    rw [hregistry]
    decide
  have hneeds : database.content.registry.Needs ⟨37⟩ ⟨38⟩ := by
    have hfield : (⟨"field1", .plain ⟨38⟩, .empty, ""⟩ : Field) ∈
        database.content.registry.ownFields ⟨37⟩ := by
      rw [hregistry]
      decide
    exact .field hfield (.head _)
  obtain ⟨-, hmem, hbefore⟩ := emissionOrder_of_reachable hreachable
  exact ⟨hneeds, (hmem _).mpr (by simp [htypes]), fun before after hsplit =>
    (hbefore before ⟨37⟩ after hsplit).2 ⟨38⟩ (by simp [htypes]) (.single hneeds)⟩

end Database
end LiveSchema
