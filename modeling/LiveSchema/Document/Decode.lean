import LiveSchema.Json.Parser
import LiveSchema.NameMap

/-!
# Decoding documents

A part of a document with fixed keys is an object, or an array of the values in the order of the keys.
Unknown keys of an object are passed over, whatever stands under them; a known key that is repeated
makes the document unreadable.  Keys that are left out stand for a default where there is one.
-/

namespace LiveSchema
namespace Decode

/-- The values under the given keys, one for each key.  The keys of an array are its positions. -/
def slots? (keys : List String) : Draft → Option (List (Option Draft))
  | .object entries =>
    keys.mapM fun key =>
      match entries.filter fun entry => entry.1 = key with
      | [] => some none
      | [entry] => some (some entry.2)
      | _ => none
  | .array items =>
    if items.length ≤ keys.length then
      some (items.map some ++ List.replicate (keys.length - items.length) none)
    else none
  | _ => none

variable {α : Type u}

/-- A value that must not be left out. -/
def required? (decode : Draft → Option α) (slot : Option Draft) : Option α :=
  slot.bind decode

/-- A value with a default. -/
def withDefault? (default : α) (decode : Draft → Option α) : Option Draft → Option α
  | none => some default
  | some value => decode value

/-- A value that may be null. -/
def nullable? (decode : Draft → Option α) : Draft → Option (Option α)
  | .null => some none
  | value => (decode value).map some

/-- A value read by a function on values. -/
def value? (read : Json → Option α) (draft : Draft) : Option α :=
  draft.toJson?.bind read

/-- A text. -/
def string? : Draft → Option String
  | .string text => some text
  | _ => none

/-- A list of values. -/
def list? (decode : Draft → Option α) : Draft → Option (List α)
  | .array items => items.mapM decode
  | _ => none

/-- A map from names; of a repeated name the last value counts. -/
def map? (decode : Draft → Option α) : Draft → Option (NameMap α)
  | .object entries =>
    (entries.mapM fun entry => (decode entry.2).map fun value => (entry.1, value)).map
      NameMap.ofList
  | _ => none

/-- One of several alternatives by its name; the name may also be the only key of an object that
holds nothing. -/
def choice? (name : α → String) (choices : List α) : Draft → Option α
  | .string text => choices.find? fun choice => name choice = text
  | .object [(text, .null)] => choices.find? fun choice => name choice = text
  | _ => none

/-- A text with a reading of its own. -/
def text? (parse : String → Option α) : Draft → Option α
  | .string text => parse text
  | _ => none

end Decode
end LiveSchema
