import LiveSchema.Proofs.Mutation.InPlace
import LiveSchema.Proofs.Reachable

/-!
# All or nothing

A mutation that is refused leaves no trace, also when its steps write on the database itself; a mutation
that is carried out adds one record to the change log.
-/

namespace LiveSchema
namespace Database

variable {digest : String → String} {database : Database}

/-- Carries out the steps of a mutation on the database itself.  What they have written stays written
when one of them fails; the change is recorded when all of them are done. -/
def applyInPlace (digest : String → String) (time : Timestamp) (database : Database)
    (files : Directory) (mutation : Mutation) : Applied :=
  match mutation.edit.on database.content with
  | (.error error, left) => ⟨{ database with content := left }, files, .error error⟩
  | (.ok report, left) =>
    let record := database.ledger.nextRecord digest mutation.action (.object report.params) time
    let changed := { database with content := left }
    let (database, files, outcome) := changed.commit files record
    ⟨database, files, outcome.map fun _ => report.answer⟩

/-- Writing on the database itself makes no difference. -/
theorem applyInPlace_eq_apply (digest : String → String) (time : Timestamp) (database : Database)
    (files : Directory) (mutation : Mutation) :
    database.applyInPlace digest time files mutation =
      database.apply digest time files mutation := by
  have hperforms := mutation.performs_edit database.content
  rw [applyInPlace, apply, hperforms]
  cases mutation.carryOut database.content with
  | error error => rfl
  | ok change => rfl

theorem Reachable.project_eq_none (h : Reachable digest database) : database.project = none := by
  induction h with
  | fresh => rfl
  | @step database _ time files mutation ih =>
      rw [apply]
      cases mutation.carryOut database.content with
      | error error => exact ih
      | ok change => simp [commit, ih, Database.record]

/-- A mutation of a database in memory either is refused and leaves no trace, or is the one change that
is recorded behind all changes before it. -/
theorem refused_or_recorded (hproject : database.project = none) (time : Timestamp)
    (files : Directory) (mutation : Mutation) :
    match (database.apply digest time files mutation).outcome with
    | .error _ => (database.apply digest time files mutation).database = database
    | .ok _ => ∃ record,
        (database.apply digest time files mutation).database.ledger.records =
          database.ledger.records ++ [record] ∧
        record.action = mutation.action ∧ record.previous = database.ledger.superhash? := by
  rw [apply]
  cases hchange : mutation.carryOut database.content with
  | error error => rfl
  | ok change =>
      simp only [commit, hproject]
      exact ⟨_, rfl, rfl, rfl⟩

/-- Where everything was written, the record was. -/
theorem commit_fst_of_ok {files : Directory} {record : AuditRecord}
    (h : (database.commit files record).2.2 = .ok ()) :
    (database.commit files record).1 = database.record record := by
  unfold commit at h ⊢
  cases hproject : database.project with
  | none => rfl
  | some project =>
      simp only [hproject] at h ⊢
      cases happend : files.append project.logFile (record.render ++ "\n") with
      | error error => simp [happend] at h
      | ok logged => rfl

/-- A mutation that is carried out leads to the content of its change, which is recorded behind all
changes before it. -/
theorem carriedOut_and_recorded {time : Timestamp} {files : Directory} {mutation : Mutation}
    {answer : Answer} (h : (database.apply digest time files mutation).outcome = .ok answer) :
    ∃ change record, mutation.carryOut database.content = .ok change ∧
      (database.apply digest time files mutation).database.content = change.content ∧
      (database.apply digest time files mutation).database.ledger.records =
        database.ledger.records ++ [record] ∧
      record.action = mutation.action ∧ record.params = .object change.params := by
  cases hchange : mutation.carryOut database.content with
  | error error =>
      rw [apply, hchange] at h
      exact absurd h (by simp)
  | ok change =>
      refine ⟨change, database.ledger.nextRecord digest mutation.action (.object change.params) time,
        rfl, apply_content_of_carryOut time files hchange, ?_, rfl, rfl⟩
      simp only [apply, hchange] at h ⊢
      rw [commit_fst_of_ok]
      · rfl
      · cases hcommit : (commit { database with content := change.content } files
            (database.ledger.nextRecord digest mutation.action (.object change.params) time)).2.2 with
        | ok _ => rfl
        | error error =>
            rw [hcommit] at h
            exact absurd h (by simp [Except.map])

/-- A database in memory answers what a mutation that is carried out answers. -/
theorem outcome_of_carryOut (hproject : database.project = none) (time : Timestamp)
    (files : Directory) {mutation : Mutation} {change : Change}
    (h : mutation.carryOut database.content = .ok change) :
    (database.apply digest time files mutation).outcome = .ok change.answer := by
  simp only [apply, h, commit, hproject]
  rfl

/-- A database in memory refuses just what cannot be carried out. -/
theorem refused_iff (hproject : database.project = none) (time : Timestamp) (files : Directory)
    (mutation : Mutation) :
    (∃ error, (database.apply digest time files mutation).outcome = .error error) ↔
      ¬ ∃ change, mutation.carryOut database.content = .ok change := by
  cases hchange : mutation.carryOut database.content with
  | error error =>
      rw [apply, hchange]
      exact iff_of_true ⟨error, rfl⟩ (by simp)
  | ok change =>
      rw [outcome_of_carryOut hproject time files hchange]
      exact iff_of_false (by simp) (by simp)

/-- A database in memory carries out just what can be carried out. -/
theorem done_iff (hproject : database.project = none) (time : Timestamp) (files : Directory)
    (mutation : Mutation) :
    (∃ answer, (database.apply digest time files mutation).outcome = .ok answer) ↔
      ∃ change, mutation.carryOut database.content = .ok change := by
  constructor
  · rintro ⟨answer, h⟩
    obtain ⟨change, -, hchange, -⟩ := carriedOut_and_recorded h
    exact ⟨change, hchange⟩
  · rintro ⟨change, hchange⟩
    exact ⟨_, outcome_of_carryOut hproject time files hchange⟩

/-- In every database that can be reached, a mutation whose steps write on the database itself leaves
registry, stores and log as they were if it is refused, for whatever reason; and if it is carried out,
it puts one record behind those of the log, which names the mutation and the superhash of before. -/
theorem refused_or_recorded_of_reachable (h : Reachable digest database) (time : Timestamp)
    (files : Directory) (mutation : Mutation) :
    database.applyInPlace digest time files mutation =
        database.apply digest time files mutation ∧
      (∀ error, (database.applyInPlace digest time files mutation).outcome = .error error →
        (database.applyInPlace digest time files mutation).database = database) ∧
      ∀ answer, (database.applyInPlace digest time files mutation).outcome = .ok answer →
        ∃ record, (database.applyInPlace digest time files mutation).database.ledger.records =
            database.ledger.records ++ [record] ∧
          record.action = mutation.action ∧ record.previous = database.ledger.superhash? := by
  have hsame := applyInPlace_eq_apply digest time database files mutation
  have hlaw := @refused_or_recorded digest database h.project_eq_none time files mutation
  rw [hsame]
  refine ⟨rfl, fun error herror => ?_, fun answer hanswer => ?_⟩
  · rw [herror] at hlaw
    exact hlaw
  · rw [hanswer] at hlaw
    exact hlaw

/-- A struct was added and deleted again: adding a field to it is refused and leaves no trace, and
adding another struct is recorded. -/
theorem refused_or_recorded_of_deleted_struct :
    let database := ((inMemory.apply id ⟨0, 0⟩ NameMap.empty .addStruct).database.apply id ⟨1, 0⟩
      NameMap.empty (.deleteType ⟨37⟩)).database
    (database.applyInPlace id ⟨2, 0⟩ NameMap.empty (.addField ⟨37⟩)).outcome =
        .error (.invariant (.noType ⟨37⟩)) ∧
      (database.applyInPlace id ⟨2, 0⟩ NameMap.empty (.addField ⟨37⟩)).database = database ∧
      (database.applyInPlace id ⟨2, 0⟩ NameMap.empty .addStruct).outcome = .ok (.type ⟨38⟩) ∧
      ∃ record, (database.applyInPlace id ⟨2, 0⟩ NameMap.empty .addStruct).database.ledger.records =
          database.ledger.records ++ [record] ∧
        record.action = "add_struct" ∧ record.previous = database.ledger.superhash? := by
  intro database
  have hfresh : Reachable id inMemory := .fresh
  have h : Reachable id database :=
    (hfresh.step ⟨0, 0⟩ NameMap.empty .addStruct).step ⟨1, 0⟩ NameMap.empty (.deleteType ⟨37⟩)
  have hrefused : (database.applyInPlace id ⟨2, 0⟩ NameMap.empty (.addField ⟨37⟩)).outcome =
      .error (.invariant (.noType ⟨37⟩)) := rfl
  have hdone : (database.applyInPlace id ⟨2, 0⟩ NameMap.empty .addStruct).outcome =
      .ok (.type ⟨38⟩) := by decide
  exact ⟨hrefused, (refused_or_recorded_of_reachable h ⟨2, 0⟩ NameMap.empty _).2.1 _ hrefused, hdone,
    (refused_or_recorded_of_reachable h ⟨2, 0⟩ NameMap.empty .addStruct).2.2 _ hdone⟩

end Database
end LiveSchema
