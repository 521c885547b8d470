/-
Module: MiningPool.Proofs.Number.Hexadecimal
Purpose: hexadecimal digits of either case, and the integers that they spell.
Main exports: Hex.IsDigit, Hex.spelled, withoutMark_eq_some, Unsigned.parse_eq_ok
-/
import Mathlib.Data.Nat.Digits.Defs
import MiningPool.Number.Power
import MiningPool.Number.Unsigned

/-!
There are twenty-two characters that are hexadecimal digits, and their values do not depend on the case.
Digits spell an integer in base sixteen with the most significant digit in front. The reader of unsigned
integers accepts exactly such digits, and the sign that it may find in front of them.
-/

namespace MiningPool

namespace Hex

/-! ### Digits -/

/-- The digits of either case. -/
def IsDigit (c : Char) : Prop := c ∈ "0123456789abcdefABCDEF".toList

instance : DecidablePred IsDigit := fun c => inferInstanceAs (Decidable (c ∈ _))

/-- The value of a digit. -/
def valueOf (c : Char) : Nat := "0123456789abcdef".toList.idxOf c.toLower

/-- What is checked for each of the digits holds of any digit. -/
theorem IsDigit.of_checked {P : Char → Prop} [DecidablePred P]
    (checked : ("0123456789abcdefABCDEF".toList.all fun c => P c) = true) {c : Char}
    (isDigit : IsDigit c) : P c :=
  of_decide_eq_true (List.all_eq_true.1 checked c isDigit)

theorem IsDigit.toNat_lt {c : Char} (isDigit : IsDigit c) : c.toNat < 128 :=
  of_checked (P := fun c => c.toNat < 128) (by decide) isDigit

theorem IsDigit.valueOf_lt {c : Char} (isDigit : IsDigit c) : valueOf c < 16 :=
  of_checked (P := fun c => valueOf c < 16) (by decide) isDigit

/-! ### Integers -/

/-- The integer that digits spell behind others that spell `high`. -/
def spelledFrom (high : Nat) (digits : List Char) : Nat :=
  digits.foldl (fun high c => high * 16 + valueOf c) high

/-- The integer that digits spell, the most significant one first. -/
def spelled (digits : List Char) : Nat := Nat.ofDigits 16 (digits.map valueOf).reverse

theorem spelled_eq (digits : List Char) : spelled digits = spelledFrom 0 digits := by
  rw [spelled, Nat.ofDigits_eq_foldr, List.foldr_reverse, List.foldl_map, spelledFrom]
  simp only [Nat.cast_id, Nat.add_comm, Nat.mul_comm]

theorem le_spelledFrom (high : Nat) (digits : List Char) : high ≤ spelledFrom high digits := by
  induction digits generalizing high with
  | nil => exact Nat.le_refl _
  | cons c digits ih =>
      calc high ≤ high * 16 + valueOf c := by omega
        _ ≤ spelledFrom high (c :: digits) := ih _

end Hex

/-- A text that begins with `0x`. -/
theorem withoutMark_eq_some {text rest : String} :
    withoutMark text = some rest ↔ text.toList = '0' :: 'x' :: rest.toList := by
  rw [withoutMark]
  split
  · rename_i digits marked
    rw [marked, Option.some.injEq, ← String.toList_inj, String.toList_ofList]
    simp
  · rename_i unmarked
    exact iff_of_false (by rintro ⟨⟩) (unmarked _)

theorem withoutMark_eq_none {text : String} :
    withoutMark text = none ↔ ∀ rest, text.toList ≠ '0' :: 'x' :: rest := by
  rw [withoutMark]
  split
  · rename_i rest marked
    exact iff_of_false (by rintro ⟨⟩) fun unmarked => unmarked rest marked
  · rename_i unmarked
    exact iff_of_true rfl unmarked

/-! ### Reading integers -/

namespace Unsigned

open Hex

theorem digit?_sixteen (c : Char) : digit? 16 c = if IsDigit c then some (valueOf c) else none := by
  by_cases ascii : c.toNat < 128
  · have first : ∀ code < 128, digit? 16 (.ofNat code) =
        if IsDigit (.ofNat code) then some (valueOf (.ofNat code)) else none := by decide +kernel
    simpa only [Char.ofNat_toNat] using first _ ascii
  · rw [if_neg fun isDigit => ascii isDigit.toNat_lt]
    have beyond : ∀ last : Char, last.toNat < 128 → ¬c ≤ last := by
      intro last small
      rw [Char.le_def, UInt32.le_iff_toNat_le]
      exact fun below => ascii (Nat.lt_of_le_of_lt below small)
    simp [digit?, beyond '9' (by decide), beyond 'z' (by decide), beyond 'Z' (by decide)]

theorem readDigits_eq_ok {limit high result : Nat} (below : high < limit) {digits : List Char} :
    readDigits 16 limit high digits = .ok result ↔
      (∀ c ∈ digits, IsDigit c) ∧ spelledFrom high digits = result ∧ result < limit := by
  induction digits generalizing high with
  | nil =>
      simp only [readDigits, spelledFrom, List.foldl_nil, Except.ok.injEq]
      constructor
      · rintro rfl
        exact ⟨List.forall_mem_nil _, rfl, below⟩
      · exact fun spells => spells.2.1
  | cons c digits ih =>
      rw [readDigits, digit?_sixteen, List.forall_mem_cons]
      by_cases isDigit : IsDigit c
      · rw [if_pos isDigit]
        dsimp only
        split
        · rename_i fits
          rw [ih fits, and_iff_right isDigit]
          rfl
        · rename_i tooLarge
          refine iff_of_false (by rintro ⟨⟩) ?_
          rintro ⟨_, rfl, fits⟩
          exact tooLarge (Nat.lt_of_le_of_lt (le_spelledFrom _ digits) fits)
      · rw [if_neg isDigit]
        exact iff_of_false (by rintro ⟨⟩) fun spells => isDigit spells.1.1

/-- Digits, at least one, perhaps behind a plus sign. -/
theorem parse_eq_ok {limit result : Nat} (positive : 0 < limit) {text : List Char} :
    parse 16 limit text = .ok result ↔ ∃ digits, (text = digits ∨ text = '+' :: digits) ∧
      digits ≠ [] ∧ (∀ c ∈ digits, IsDigit c) ∧ spelled digits = result ∧ result < limit := by
  have unsigned : ∀ {digits : List Char}, ¬∀ c ∈ '+' :: digits, IsDigit c := by
    intro digits all
    exact absurd (all '+' List.mem_cons_self) (by decide)
  simp only [spelled_eq]
  rw [parse.eq_def]
  split
  · refine iff_of_false (by rintro ⟨⟩) ?_
    rintro ⟨digits, rfl | ⟨⟨⟩⟩, some, _⟩
    exact some rfl
  · refine iff_of_false (by rintro ⟨⟩) ?_
    rintro ⟨digits, rfl | same, some, all, _⟩
    · exact unsigned all
    · exact some (List.cons.inj same).2.symm
  · rename_i rest signed
    rw [readDigits_eq_ok positive]
    constructor
    · intro spells
      exact ⟨rest, .inr rfl, fun none => signed (by rw [none]), spells⟩
    · rintro ⟨digits, rfl | same, some, spells⟩
      · exact absurd spells.1 unsigned
      · rwa [(List.cons.inj same).2]
  · rename_i nonempty _ signed
    rw [readDigits_eq_ok positive]
    constructor
    · intro spells
      exact ⟨text, .inl rfl, nonempty, spells⟩
    · rintro ⟨digits, rfl | rfl, some, spells⟩
      · exact spells
      · exact absurd rfl (signed digits)

end Unsigned

end MiningPool
