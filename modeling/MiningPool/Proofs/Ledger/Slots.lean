/-
Module: MiningPool.Proofs.Ledger.Slots
Purpose: reading and setting the slots of a ledger.
Main exports: Slots.get?_insert_self, Slots.get?_insert_of_ne, Slots.exists_split,
  Slots.insert_of_forall_lt
-/
import MiningPool.Ledger.Basic

/-!
Setting a slot shows at its number and nowhere else, whatever the order of the slots. In ascending order
the new slot takes the place of the old one, or comes last if its number is greater than all others.
-/

namespace MiningPool.Slots

/-- Slots in the order of their numbers. -/
def Ascending (slots : Slots) : Prop := slots.Pairwise fun earlier later => earlier.1 < later.1

theorem get?_cons (number other : Nat) (slot : Slot) (slots : Slots) :
    get? ((other, slot) :: slots) number =
      if other = number then some slot else slots.get? number := by
  by_cases same : other = number <;> simp [get?, same]

@[simp] theorem get?_insert_self (slots : Slots) (number : Nat) (slot : Slot) :
    (slots.insert number slot).get? number = some slot := by
  induction slots with
  | nil => simp [insert, get?_cons]
  | cons entry slots ih =>
      obtain ⟨other, old⟩ := entry
      rw [insert]
      split
      · simp [get?_cons]
      · split
        · simp [get?_cons]
        · rename_i different
          rw [get?_cons, if_neg (Ne.symm different), ih]

theorem get?_insert_of_ne {number other : Nat} (different : other ≠ number) (slots : Slots)
    (slot : Slot) : (slots.insert number slot).get? other = slots.get? other := by
  induction slots with
  | nil => rw [insert, get?_cons, if_neg (Ne.symm different)]
  | cons entry slots ih =>
      obtain ⟨another, old⟩ := entry
      rw [insert]
      split
      · rw [get?_cons, if_neg (Ne.symm different)]
      · split
        · rename_i same
          subst same
          rw [get?_cons, get?_cons, if_neg (Ne.symm different), if_neg (Ne.symm different)]
        · rw [get?_cons, get?_cons, ih]

theorem mem_of_get?_eq_some {slots : Slots} {number : Nat} {slot : Slot}
    (found : slots.get? number = some slot) : (number, slot) ∈ slots := by
  obtain ⟨⟨other, same⟩, first, rfl⟩ := Option.map_eq_some_iff.1 found
  have isNumber : other = number := by simpa using List.find?_some first
  subst isNumber
  exact List.mem_of_find?_eq_some first

theorem get?_isSome_iff {slots : Slots} {number : Nat} :
    (slots.get? number).isSome ↔ number ∈ slots.map (·.1) := by
  simp [get?]

namespace Ascending

theorem get?_eq_some {slots : Slots} (ascending : slots.Ascending) {number : Nat} {slot : Slot}
    (member : (number, slot) ∈ slots) : slots.get? number = some slot := by
  induction slots with
  | nil => cases member
  | cons entry slots ih =>
      obtain ⟨other, old⟩ := entry
      obtain ⟨first, rest⟩ := List.pairwise_cons.1 ascending
      rw [get?_cons]
      rcases List.mem_cons.1 member with same | later
      · obtain ⟨rfl, rfl⟩ := Prod.mk.inj same
        rw [if_pos rfl]
      · have above : other < number := first _ later
        rw [if_neg (Nat.ne_of_lt above), ih rest later]

/-- A slot that is set takes the place of the one before. -/
theorem exists_split {slots : Slots} (ascending : slots.Ascending) {number : Nat} {old : Slot}
    (found : slots.get? number = some old) :
    ∃ before after, slots = before ++ (number, old) :: after ∧
      ∀ slot, slots.insert number slot = before ++ (number, slot) :: after := by
  induction slots with
  | nil => cases found
  | cons entry slots ih =>
      obtain ⟨other, first⟩ := entry
      obtain ⟨below, rest⟩ := List.pairwise_cons.1 ascending
      rw [get?_cons] at found
      split at found
      · rename_i same
        subst same
        cases found
        refine ⟨[], slots, rfl, ?_⟩
        intro slot
        rw [insert, if_neg (Nat.lt_irrefl _), if_pos rfl]
        rfl
      · rename_i different
        obtain ⟨before, after, split, inserted⟩ := ih rest found
        have above : other < number := below _ (mem_of_get?_eq_some found)
        refine ⟨(other, first) :: before, after, by rw [split]; rfl, ?_⟩
        intro slot
        rw [insert, if_neg (Nat.lt_asymm above), if_neg (Ne.symm different), inserted]
        rfl

theorem map_fst_insert {slots : Slots} (ascending : slots.Ascending) {number : Nat} {old : Slot}
    (found : slots.get? number = some old) (slot : Slot) :
    (slots.insert number slot).map (·.1) = slots.map (·.1) := by
  obtain ⟨before, after, split, inserted⟩ := ascending.exists_split found
  rw [inserted, split]
  simp

end Ascending

/-- A number greater than all others comes last. -/
theorem insert_of_forall_lt {slots : Slots} {number : Nat}
    (greatest : ∀ entry ∈ slots, entry.1 < number) (slot : Slot) :
    slots.insert number slot = slots ++ [(number, slot)] := by
  induction slots with
  | nil => rfl
  | cons entry slots ih =>
      obtain ⟨other, old⟩ := entry
      obtain ⟨below, rest⟩ := List.forall_mem_cons.1 greatest
      rw [insert, if_neg (Nat.lt_asymm below), if_neg (Nat.ne_of_gt below), ih rest]
      rfl

end MiningPool.Slots
