/-
Module: MiningPool.Proofs.Json.Record
Purpose: what the reading of a record keeps, field by field.
Main exports: bind_eq_ok, exists_eq_ok_of_map, Json.RecordForm.Keeps, Json.RecordForm.read?_keeps
-/
import MiningPool.Json.Record

/-!
A record lists the names of its fields while it reads them, as an object or as an array. What the reading of
each field keeps of the values and of that list holds of the whole record.
-/

namespace MiningPool

/-- A computation of two parts that comes to a result. -/
theorem bind_eq_ok {ε α β : Type} {first : Except ε α} {second : α → Except ε β} {result : β} :
    first >>= second = .ok result ↔ ∃ value, first = .ok value ∧ second value = .ok result := by
  cases first with
  | error error => exact iff_of_false (by rintro ⟨⟩) (by rintro ⟨_, ⟨⟩, _⟩)
  | ok value =>
      refine ⟨fun same => ⟨value, rfl, same⟩, ?_⟩
      rintro ⟨_, ⟨⟩, same⟩
      exact same

/-- What is seen of a result shows that there is one. -/
theorem exists_eq_ok_of_map {ε α β : Type} {result : Except ε α} {look : α → β} {seen : β}
    (found : result.toOption.map look = some seen) : ∃ value, result = .ok value ∧ look value = seen := by
  cases result with
  | error error => cases found
  | ok value => exact ⟨value, rfl, Option.some.inj found⟩

theorem eq_ok_of_toOption {ε α : Type} {result : Except ε α} {value : α}
    (found : result.toOption = some value) : result = .ok value := by
  cases result with
  | error error => cases found
  | ok own => exact congrArg Except.ok (Option.some.inj found)

/-! ### Fields of a record -/

namespace Json.RecordForm

variable {σ : Type} {form : RecordForm σ} {Holds : σ → List String → Prop} {parts : RecordParts σ}
  {bytes : List UInt8} {result : RecordParts σ × List UInt8}

/-- Reading any field keeps what holds of the values and of the names that were given. -/
def Keeps (form : RecordForm σ) (Holds : σ → List String → Prop) : Prop :=
  ∀ name values bytes after rest, form.read name values bytes = .ok (after, rest) →
    ∀ present, Holds values present → Holds after (name :: present)

theorem readMember_keeps (keeps : form.Keeps Holds)
    {key : String} (read : form.readMember key parts bytes = .ok result)
    (holds : Holds parts.values parts.present) : Holds result.1.values result.1.present := by
  rw [readMember] at read
  split at read
  · split at read
    · cases read
    · obtain ⟨behind, _, read⟩ := bind_eq_ok.1 read
      obtain ⟨⟨values, rest⟩, field, read⟩ := bind_eq_ok.1 read
      cases read
      exact keeps _ _ _ _ _ field _ holds
  · obtain ⟨behind, _, read⟩ := bind_eq_ok.1 read
    split at read
    · cases read
      exact holds
    · cases read

theorem readMembers_keeps (keeps : form.Keeps Holds)
    {limit : Nat} {first : Bool} (read : form.readMembers limit first parts bytes = .ok result)
    (holds : Holds parts.values parts.present) : Holds result.1.values result.1.present := by
  induction limit generalizing first parts bytes with
  | zero => cases read
  | succ limit ih =>
      rw [readMembers] at read
      split at read
      · cases read
        exact holds
      · split at read
        · cases read
        · split at read
          · cases read
          · split at read
            · cases read
            · rename_i member
              exact ih read (readMember_keeps keeps member holds)
        · cases read

theorem readItems_keeps (keeps : form.Keeps Holds)
    {names : List String} {first : Bool} (read : form.readItems names first parts bytes = .ok result)
    (holds : Holds parts.values parts.present) : Holds result.1.values result.1.present := by
  induction names generalizing first parts bytes with
  | nil =>
      rw [readItems] at read
      split at read
      · cases read
        exact holds
      · cases read
  | cons name names ih =>
      rw [readItems] at read
      split at read
      · cases read
        exact holds
      · split at read
        · cases read
        · split at read
          · cases read
          · rename_i item
            exact ih read (keeps _ _ _ _ _ item _ holds)

/-- What the reading of each field keeps is kept by the reading of the record. -/
theorem read?_keeps (keeps : form.Keeps Holds) {start : σ}
    (read : form.read? start bytes = .ok result) (holds : Holds start []) :
    Holds result.1.values result.1.present := by
  rw [read?] at read
  split at read
  · exact readMembers_keeps keeps read holds
  · exact readItems_keeps keeps read holds
  · cases read

end Json.RecordForm

end MiningPool
