import LiveSchema.Json.Basic

/-!
# Integers in values

Different integers of documents are different values.  An integer of 64 bits with a sign is a value, and
every value that is read as one is made of it.
-/

namespace LiveSchema

variable {value : Json} {number : Int}

/-- A JSON number holds an integer of 64 bits exactly. -/
theorem isDocumentInteger_toInt (number : Int64) : IsDocumentInteger number.toInt := by
  have hlow := number.le_toInt
  have hhigh := number.toInt_lt
  exact ⟨by omega, by omega⟩

namespace Json

theorem ofInt_eq {n : Int} (h : IsDocumentInteger n) : ofInt n = .number (.integer n h) :=
  dif_pos h

theorem ofInt_inj {m n : Int} (hm : IsDocumentInteger m) (hn : IsDocumentInteger n) :
    ofInt m = ofInt n ↔ m = n := by
  simp only [ofInt_eq hm, ofInt_eq hn, number.injEq, Number.integer.injEq]

theorem ofInt_toInt (number : Int64) :
    ofInt number.toInt = .number (.integer number.toInt (isDocumentInteger_toInt number)) :=
  ofInt_eq (isDocumentInteger_toInt number)

@[simp] theorem isNull_ofInt_toInt (number : Int64) : (ofInt number.toInt).isNull = false := by
  rw [ofInt_toInt]
  rfl

@[simp] theorem signed?_ofInt_toInt (number : Int64) :
    (ofInt number.toInt).signed? = some number.toInt := by
  rw [ofInt_toInt]
  exact if_pos number.toInt_lt

/-- What is read as an integer with a sign is an integer of 64 bits. -/
theorem exists_of_signed? (h : value.signed? = some number) :
    ∃ held : Int64, held.toInt = number ∧ value = ofInt held.toInt := by
  unfold signed? at h
  split at h
  next n =>
      unfold Number.signed? at h
      split at h
      next held hfits =>
          split at h
          next hhigh =>
              obtain rfl := Option.some.inj h
              have hsame := Int64.toInt_ofInt_of_le hfits.1 hhigh
              refine ⟨.ofInt held, hsame, ?_⟩
              simp only [ofInt, hsame, dif_pos hfits]
          next => exact absurd h (by simp)
      next => exact absurd h (by simp)
  next => exact absurd h (by simp)

end Json
end LiveSchema
