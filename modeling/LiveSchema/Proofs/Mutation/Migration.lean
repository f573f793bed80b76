import LiveSchema.Mutation.Migration
import LiveSchema.Proofs.NameMap
import LiveSchema.Proofs.Value.Records
import LiveSchema.Proofs.Value.Replay

/-!
# Migrations without their state

What a migration makes of a root does not depend on what it has met before, so a migration changes
every root by itself.  If its step fits values to the changed types, all roots that conformed before
the change conform after it.
-/

namespace LiveSchema

universe u

variable {σ : Type u}

namespace Registry

/-- What a migration makes of a root: its value is revised first, and then everything inside it. -/
def revisedRoot (registry : Registry) (f : TypeReference → Json → Json) (root : Root) : Root :=
  ⟨root.type, registry.mapWithin f
    (registry.walkDepth root.type (f root.type root.value) registry.defaultDepth) root.type
    (f root.type root.value)⟩

/-- Where a migration has nothing to do inside the value that a root gets, the root gets just this
value. -/
theorem revisedRoot_eq_of_idle {registry : Registry} {f : TypeReference → Json → Json} {root : Root}
    (h : ∀ child ∈ registry.childValues root.type (f root.type root.value),
      registry.Everywhere (fun type inner => f type inner = inner) child.type child.value) :
    registry.revisedRoot f root = ⟨root.type, f root.type root.value⟩ := by
  rw [revisedRoot, mapWithin_eq_self _ h]

/-- The value of a root conforms to its type. -/
def ConformingRoot (registry : Registry) (root : Root) : Prop :=
  registry.conforms root.type root.value = true

end Registry

namespace Stores

variable {stores : Stores} {registry : Registry}

/-- The stores with every root revised. -/
def revised (stores : Stores) (registry : Registry) (f : TypeReference → Json → Json) : Stores :=
  NameMap.mapValues stores fun _ kept => NameMap.mapValues kept fun _ root =>
    registry.revisedRoot f root

theorem root?_revised (f : TypeReference → Json → Json) (store name : String) :
    (stores.revised registry f).root? store name =
      (stores.root? store name).map (registry.revisedRoot f) := by
  rw [root?, root?, revised, NameMap.get?_mapValues]
  cases stores.get? store with
  | none => rfl
  | some kept => exact NameMap.get?_mapValues kept _ name

theorem revised_single (registry : Registry) (f : TypeReference → Json → Json) (name : String)
    (root : Root) :
    (single name root).revised registry f = single name (registry.revisedRoot f root) :=
  rfl

theorem everyRoot_revised_iff {f : TypeReference → Json → Json} {property : Root → Prop} :
    (stores.revised registry f).EveryRoot property ↔
      stores.EveryRoot fun root => property (registry.revisedRoot f root) := by
  constructor
  · intro h store name root hroot
    refine h store name _ ?_
    rw [root?_revised, hroot, Option.map_some]
  · intro h store name root hroot
    rw [root?_revised, Option.map_eq_some_iff] at hroot
    obtain ⟨old, hold, rfl⟩ := hroot
    exact h store name old hold

end Stores

/-! ## Plain migrations -/

section Plain

variable {concerned : TypeReference → Bool}
  {migration : σ → ValuePath → TypeReference → Json → σ × Json} {g : TypeReference → Json → Json}

/-- The step of the walk of a migration. -/
def migrationStep (concerned : TypeReference → Bool)
    (migration : σ → ValuePath → TypeReference → Json → σ × Json) : Step σ :=
  fun state type path value =>
    if concerned type then
      ⟨(migration state path type value).1, (migration state path type value).2, false⟩
    else ⟨state, value, false⟩

theorem plain_migrationStep
    (hplain : ∀ state path type value, (migration state path type value).2 = g type value) :
    (migrationStep concerned migration).Plain (whereConcerned concerned g) := by
  intro state type path value
  unfold migrationStep whereConcerned
  split
  · exact ⟨hplain state path type value, rfl⟩
  · exact ⟨rfl, rfl⟩

/-- A migration takes its step at the root and walks on from the answer. -/
theorem Root.migrate_eq {registry : Registry} (state : σ) (root : Root) :
    root.migrate registry concerned migration state =
      let answer := migrationStep concerned migration state root.type .root root.value
      let outcome := registry.revise registry.defaultDepth (migrationStep concerned migration)
        answer.state root.type answer.value
      (outcome.state, ⟨root.type, outcome.value⟩) := by
  by_cases h : concerned root.type = true
  · simp only [Root.migrate, migrationStep, h, if_true]
    rfl
  · simp only [Root.migrate, migrationStep, h, Bool.false_eq_true, if_false]
    rfl

theorem Root.migrate_snd {registry : Registry}
    (hplain : ∀ state path type value, (migration state path type value).2 = g type value)
    (state : σ) (root : Root) :
    (root.migrate registry concerned migration state).2 =
      registry.revisedRoot (whereConcerned concerned g) root := by
  have hstep : (migrationStep concerned migration).Plain (whereConcerned concerned g) :=
    plain_migrationStep hplain
  rw [Root.migrate_eq]
  simp only [Registry.revise, Registry.revisedRoot]
  rw [(hstep state root.type .root root.value).1, (Registry.reviseWithin_plain hstep _ _ _ _ _).1]

end Plain

namespace Stores

variable {stores : Stores} {registry : Registry} {record : TypeHandle}

theorem migrate_snd {concerned : TypeReference → Bool} {migration : Migration σ}
    {g : TypeReference → Json → Json}
    (hplain : ∀ state place type value, (migration state place type value).2 = g type value)
    (state : σ) :
    (stores.migrate registry concerned migration state).2 =
      stores.revised registry (whereConcerned concerned g) := by
  unfold migrate revised
  refine NameMap.mapFrom_snd (fun state store kept => ?_) stores state
  exact NameMap.mapFrom_snd (fun state root value =>
    Root.migrate_snd (fun state path type value => hplain state ⟨store, root, path⟩ type value)
      state value) kept state

/-- A change of the objects of a record, and of everything that extends it, that does not depend on
where they lie. -/
theorem tallyRecords_snd {change : Place → TypeHandle → Entries → Entries × List Backup}
    {g : TypeHandle → Entries → Entries}
    (hchange : ∀ place type entries, (change place type entries).1 = g type entries) :
    (stores.tallyRecords registry record change).2 =
      stores.revised registry (registry.reviseFamily record g) := by
  unfold tallyRecords Registry.reviseFamily
  refine migrate_snd (fun state place type value => ?_) ({} : Tally)
  cases value with
  | object entries => exact congrArg Json.object (hchange place type.handle entries)
  | _ => rfl

theorem conformRecords_snd : (stores.conformRecords registry record).2 =
    stores.revised registry (registry.reviseFamily record registry.conformed) :=
  tallyRecords_snd fun _ _ _ => rfl

theorem renameField_snd {source target : String} :
    (stores.renameField registry record source target).2 =
      stores.revised registry
        (registry.reviseFamily record fun _ entries => Entries.renameKey entries source target) :=
  tallyRecords_snd fun _ _ _ => rfl

/-- The entries with the value under a key converted; a missing value starts with the default of its
old type. -/
def convertedEntries (registry : Registry) (name : String) (source target : TypeReference)
    (entries : Entries) : Entries :=
  Entries.assign name (registry.convert source target
    ((Entries.value? entries name).getD (registry.defaultValue source))) entries

theorem convertField_snd {name : String} {source target : TypeReference} :
    (stores.convertField registry record name source target).2 =
      stores.revised registry
        (registry.reviseFamily record fun _ => convertedEntries registry name source target) :=
  tallyRecords_snd fun _ _ _ => rfl

/-- The number that takes the place of a stored number of an enumeration. -/
def renumberedValue (mapping : List (Int64 × Int64)) (removed : Option (Int64 × Int64))
    (value : Json) : Json :=
  match value.signed?.bind (renumbered? mapping removed) with
  | some target => if some target.toInt = value.signed? then value else .ofInt target.toInt
  | none => value

theorem renumber_snd {enumeration : TypeHandle} {mapping : List (Int64 × Int64)}
    {removed : Option (Int64 × Int64)} :
    (stores.renumber registry enumeration mapping removed).2 =
      stores.revised registry (whereConcerned (fun type => type.handle = enumeration)
        fun _ => renumberedValue mapping removed) := by
  unfold renumber
  refine migrate_snd (fun state place type value => ?_) 0
  unfold renumberedValue
  cases value.signed? with
  | none => rfl
  | some current =>
      cases htarget : renumbered? mapping removed current with
      | none => simp [htarget]
      | some target =>
          by_cases hsame : target.toInt = current
          · simp [htarget, hsame]
          · simp [htarget, hsame]

end Stores

/-! ## Roots that conform -/

/-- The value of every root of every store conforms to the type of the root. -/
def Content.Conforms (content : Content) : Prop :=
  content.stores.EveryRoot content.registry.ConformingRoot

namespace Registry

variable {before after : Registry} {f : TypeReference → Json → Json}
  {doubt : TypeReference → Json → TypeReference → Json → Prop}
  {property : TypeReference → Json → Prop} {stores : Stores}

/-- Roots that conformed before a change conform once they are fitted to it, if whatever is in doubt
is settled. -/
theorem Refits.conformingRoot (hrefits : Refits before after f doubt property)
    (h : stores.EveryRoot before.ConformingRoot)
    (hproperty : (stores.revised after f).EveryRoot fun root =>
      after.Everywhere property root.type root.value) :
    (stores.revised after f).EveryRoot after.ConformingRoot := by
  rw [Stores.everyRoot_revised_iff] at hproperty ⊢
  intro store name root hroot
  exact hrefits.conforms_revise after.defaultDepth (h store name root hroot)
    (hproperty store name root hroot)

/-- Where nothing is in doubt there is nothing to settle. -/
theorem Refits.conformingRoot_of_certain
    (hrefits : Refits before after f (fun _ _ _ _ => False) fun _ _ => True)
    (h : stores.EveryRoot before.ConformingRoot) :
    (stores.revised after f).EveryRoot after.ConformingRoot :=
  hrefits.conformingRoot h fun _ _ _ _ _ _ _ => trivial

end Registry
end LiveSchema
