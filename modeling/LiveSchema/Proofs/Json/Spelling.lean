import LiveSchema.Proofs.Json.Inner
import LiveSchema.Proofs.Json.Strings

/-!
# The two written forms

The compact and the indented form of a value differ in blanks only.  `Json.spell` is the text of a
value with the blanks of a layout, and both printers write it.
-/

namespace LiveSchema
namespace Json

/-- The blanks before the items of each level, and between a key and its value. -/
structure Layout where
  gap : Nat → List Char
  colon : List Char
  gap_blank : ∀ level, ∀ c ∈ gap level, isSpace c = true
  colon_blank : ∀ c ∈ colon, isSpace c = true

namespace Layout

/-- No blanks at all. -/
def compact : Layout := ⟨fun _ => [], [], by simp, by simp⟩

@[simp] theorem compact_gap (level : Nat) : compact.gap level = [] := rfl

@[simp] theorem compact_colon : compact.colon = [] := rfl

/-- A line for each item, and a blank before a value. -/
def indented : Layout where
  gap level := '\n' :: List.replicate (2 * level) ' '
  colon := [' ']
  gap_blank level c hc := by
    rcases List.mem_cons.mp hc with rfl | hc
    · decide
    · rw [List.eq_of_mem_replicate hc]
      decide
  colon_blank := List.all_eq_true.mp (by decide)

end Layout

variable (layout : Layout)

mutual

/-- The text of a value of the given level. -/
def spell (level : Nat) : Json → List Char
  | .array [] => ['[', ']']
  | .array (item :: rest) =>
    '[' :: (layout.gap (level + 1) ++ spell (level + 1) item ++ spellItems (level + 1) rest ++
      layout.gap level ++ [']'])
  | .object [] => ['\x7b', '\x7d']
  | .object ((key, value) :: rest) =>
    '\x7b' :: (layout.gap (level + 1) ++ (quote key).toList ++ ':' :: layout.colon ++
      spell (level + 1) value ++ spellEntries (level + 1) rest ++ layout.gap level ++ ['\x7d'])
  | value => (renderScalar value).toList

/-- The texts of further items, a comma before each. -/
def spellItems (level : Nat) : List Json → List Char
  | [] => []
  | item :: rest => ',' :: (layout.gap level ++ spell level item ++ spellItems level rest)

/-- The texts of further entries, a comma before each. -/
def spellEntries (level : Nat) : List (String × Json) → List Char
  | [] => []
  | (key, value) :: rest =>
    ',' :: (layout.gap level ++ (quote key).toList ++ ':' :: layout.colon ++ spell level value ++
      spellEntries level rest)

end

/-! ## The printers -/

theorem toList_writeItems {items : List Json} (level : Nat)
    (hitems : ∀ item ∈ items, ∀ sofar,
      (item.write sofar).toList = sofar.toList ++ item.spell .compact level) (sofar : String) :
    (writeItems sofar "," items).toList = sofar.toList ++ spellItems .compact level items := by
  induction items generalizing sofar with
  | nil => simp [writeItems, spellItems]
  | cons item rest ih =>
      rw [writeItems, ih fun other hother => hitems other (List.mem_cons_of_mem _ hother),
        hitems item List.mem_cons_self]
      simp [spellItems]

theorem toList_writeEntries {entries : List (String × Json)} (level : Nat)
    (hentries : ∀ entry ∈ entries, ∀ sofar,
      (entry.2.write sofar).toList = sofar.toList ++ entry.2.spell .compact level)
    (sofar : String) :
    (writeEntries sofar "," entries).toList = sofar.toList ++ spellEntries .compact level entries := by
  induction entries generalizing sofar with
  | nil => simp [writeEntries, spellEntries]
  | cons entry rest ih =>
      obtain ⟨key, value⟩ := entry
      rw [writeEntries, ih fun other hother => hentries other (List.mem_cons_of_mem _ hother),
        hentries (key, value) List.mem_cons_self]
      simp [spellEntries]

theorem toList_write (value : Json) (level : Nat) (sofar : String) :
    (value.write sofar).toList = sofar.toList ++ value.spell .compact level := by
  induction value using inner_induction generalizing level sofar with
  | step value ih =>
      cases value with
      | array items =>
          cases items with
          | nil => simp [write, writeItems, spell]
          | cons item rest =>
              have hrest := toList_writeItems (level + 1) fun other hother =>
                ih other (List.mem_cons_of_mem _ hother) (level + 1)
              have hitem := ih item List.mem_cons_self (level + 1)
              simp [write, writeItems, spell, hrest, hitem]
      | object entries =>
          cases entries with
          | nil => simp [write, writeEntries, spell]
          | cons entry rest =>
              obtain ⟨key, held⟩ := entry
              have hrest := toList_writeEntries (level + 1) fun other hother =>
                ih other.2 (List.mem_cons_of_mem _ (List.mem_map_of_mem hother)) (level + 1)
              have hheld := ih held List.mem_cons_self (level + 1)
              simp [write, writeEntries, spell, hrest, hheld]
      | _ => simp [write, spell]

/-- The compact form is spelled without blanks. -/
theorem toList_render (value : Json) : value.render.toList = value.spell .compact 0 := by
  rw [render, toList_write value 0]
  rfl

theorem toList_lineBreak (level : Nat) : (lineBreak level).toList = Layout.indented.gap level := by
  simp [lineBreak, Layout.indented]

theorem toList_writeIndentedItems {items : List Json} (level : Nat)
    (hitems : ∀ item ∈ items, ∀ sofar,
      (item.writeIndented level sofar).toList = sofar.toList ++ item.spell .indented level)
    (sofar : String) :
    (writeIndentedItems level sofar "," items).toList =
      sofar.toList ++ spellItems .indented level items := by
  induction items generalizing sofar with
  | nil => simp [writeIndentedItems, spellItems]
  | cons item rest ih =>
      rw [writeIndentedItems, ih fun other hother => hitems other (List.mem_cons_of_mem _ hother),
        hitems item List.mem_cons_self]
      simp [spellItems, toList_lineBreak]

theorem toList_writeIndentedEntries {entries : List (String × Json)} (level : Nat)
    (hentries : ∀ entry ∈ entries, ∀ sofar,
      (entry.2.writeIndented level sofar).toList = sofar.toList ++ entry.2.spell .indented level)
    (sofar : String) :
    (writeIndentedEntries level sofar "," entries).toList =
      sofar.toList ++ spellEntries .indented level entries := by
  induction entries generalizing sofar with
  | nil => simp [writeIndentedEntries, spellEntries]
  | cons entry rest ih =>
      obtain ⟨key, value⟩ := entry
      rw [writeIndentedEntries,
        ih fun other hother => hentries other (List.mem_cons_of_mem _ hother),
        hentries (key, value) List.mem_cons_self]
      simp [spellEntries, toList_lineBreak, Layout.indented]

theorem toList_writeIndented (value : Json) (level : Nat) (sofar : String) :
    (value.writeIndented level sofar).toList = sofar.toList ++ value.spell .indented level := by
  induction value using inner_induction generalizing level sofar with
  | step value ih =>
      cases value with
      | array items =>
          cases items with
          | nil => simp [writeIndented, spell]
          | cons item rest =>
              have hrest := toList_writeIndentedItems (level + 1)
                fun other hother => ih other (List.mem_cons_of_mem _ hother) (level + 1)
              have hitem := ih item List.mem_cons_self (level + 1)
              simp [writeIndented, writeIndentedItems, spell, hrest, hitem, toList_lineBreak]
      | object entries =>
          cases entries with
          | nil => simp [writeIndented, spell]
          | cons entry rest =>
              obtain ⟨key, held⟩ := entry
              have hrest := toList_writeIndentedEntries (level + 1)
                fun other hother =>
                  ih other.2 (List.mem_cons_of_mem _ (List.mem_map_of_mem hother)) (level + 1)
              have hheld := ih held List.mem_cons_self (level + 1)
              simp [writeIndented, writeIndentedEntries, spell, hrest, hheld, toList_lineBreak,
                Layout.indented]
      | _ => simp [writeIndented, spell]

/-- The indented form is spelled with the blanks of its layout. -/
theorem toList_renderIndented (value : Json) :
    value.renderIndented.toList = value.spell .indented 0 := by
  rw [renderIndented, toList_writeIndented]
  rfl

end Json
end LiveSchema
