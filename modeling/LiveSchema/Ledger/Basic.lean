import LiveSchema.Error
import LiveSchema.Ledger.Record

/-!
# The change log

The log holds a record of every change, in order.  Records are only ever added, and each holds the
hash of the one before it, so the hash of the last record stands for the whole log.
-/

namespace LiveSchema

/-- All changes so far. -/
structure Ledger where
  records : List AuditRecord
deriving Repr

namespace Ledger

/-- The log without records. -/
def empty : Ledger := ⟨[]⟩

instance : Inhabited Ledger := ⟨empty⟩

/-- The hash of the last record. -/
def superhash? (ledger : Ledger) : Option String :=
  ledger.records.getLast?.map AuditRecord.hash

/-- The log with one more record. -/
def push (ledger : Ledger) (record : AuditRecord) : Ledger :=
  ⟨ledger.records ++ [record]⟩

/-- The record of a change that is about to be added. -/
def nextRecord (digest : String → String) (ledger : Ledger) (action : String) (params : Json)
    (time : Timestamp) : AuditRecord :=
  .make digest ledger.superhash? action params time

/-- Adds a change to the log. -/
def append (digest : String → String) (ledger : Ledger) (action : String) (params : Json)
    (time : Timestamp) : Ledger :=
  ledger.push (ledger.nextRecord digest action params time)

/-! ## The log as a file -/

/-- The lines of a text.  A line ends at a line feed, and a carriage return right before that belongs
to the end of the line; the last line need not have an end. -/
def linesOf (text : List Char) : List (List Char) :=
  let parts := text.splitOn '\n'
  let ended := parts.dropLast.map fun line =>
    if line.getLast? = some '\r' then line.dropLast else line
  match parts.getLast? with
  | none | some [] => ended
  | some last => ended ++ [last]

/-- Reads lines into a log, the first of them having the given number.  Blank lines are passed over.
A record has to be readable, to have its proper hash, and to hold the hash of the record before. -/
def readLines (digest : String → String) (ledger : Ledger) (number : Nat) :
    List (List Char) → Except Damage Ledger
  | [] => .ok ledger
  | line :: rest =>
    if Text.trim line = [] then readLines digest ledger (number + 1) rest
    else
      match AuditRecord.parse? (String.ofList line) with
      | none => .error (.unreadableLine number)
      | some record =>
        if record.previous = ledger.superhash? ∧ record.isSealed digest then
          readLines digest (ledger.push record) (number + 1) rest
        else .error (.brokenChain number)

/-- The log that a file holds. -/
def parse (digest : String → String) (text : String) : Except Damage Ledger :=
  readLines digest empty 1 (linesOf text.toList)

end Ledger
end LiveSchema
