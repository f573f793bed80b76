import LiveSchema.Document.Decode
import LiveSchema.Json.Printer
import LiveSchema.Timestamp.Parser
import LiveSchema.Timestamp.Printer

/-!
# Records of the change log

A record of the change log tells one change: its action, what it was applied to, and its time.  It
also holds the hash of the record before it and a hash of its own, which covers all of these.
-/

namespace LiveSchema

/-- A change, as the log tells it. -/
structure AuditRecord where
  action : String
  params : Json
  time : Timestamp
  previous : Option String
  hash : String
deriving Repr

namespace AuditRecord

/-- The text that the hash of a record is taken of. -/
def chainText (previous : Option String) (action : String) (params : Json) (time : Timestamp) :
    String :=
  previous.getD "" ++ action ++ params.render ++ time.render "+00:00"

/-- A record with the hash that it should have. -/
def make (digest : String → String) (previous : Option String) (action : String) (params : Json)
    (time : Timestamp) : AuditRecord :=
  ⟨action, params, time, previous, digest (chainText previous action params time)⟩

/-- Whether a record has the hash that it should have. -/
def isSealed (digest : String → String) (record : AuditRecord) : Bool :=
  record.hash = digest (chainText record.previous record.action record.params record.time)

/-- The JSON form of a record. -/
def toJson (record : AuditRecord) : Json :=
  .object ([("action", .string record.action), ("params", record.params),
    ("timestamp", .string (record.time.render "Z"))] ++
      (record.previous.toList.map fun hash => ("previous", .string hash)) ++
    [("hash", .string record.hash)])

/-- The record that a draft spells. -/
def ofDraft? (draft : Draft) : Option AuditRecord := do
  match ← Decode.slots? ["action", "params", "timestamp", "previous", "hash"] draft with
  | [action, params, time, previous, hash] =>
    return {
      action := ← Decode.required? Decode.string? action
      params := ← Decode.required? Draft.toJson? params
      time := ← Decode.required? (Decode.text? Timestamp.parse?) time
      previous := ← Decode.withDefault? none (Decode.nullable? Decode.string?) previous
      hash := ← Decode.required? Decode.string? hash }
  | _ => none

/-- The line of a record. -/
def render (record : AuditRecord) : String :=
  record.toJson.render

/-- The record of a line. -/
def parse? (line : String) : Option AuditRecord :=
  (Draft.read? line).bind ofDraft?

end AuditRecord
end LiveSchema
