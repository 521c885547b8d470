/-
Module: MiningPool.Proofs.Work.Target
Purpose: the target of a difficulty, as an integer.
Main exports: doubledQuotient, Targets, targets_of_shareTarget, shareTarget_exact
-/
import MiningPool.Proofs.BigEndian
import MiningPool.Work.Pool

/-!
The quotient of 2²⁵⁵ and a difficulty, doubled, has up to 257 binary digits, and 32 bytes keep only the
last 256 of them. Only the difficulty one leads to more than 256 digits, and its target is cut to all ones.
So nothing is ever lost on the way to 32 bytes: a target misses the quotient of 2²⁵⁶ and the difficulty by
less than two, and a greater difficulty never has a greater target.
-/

namespace MiningPool

variable {difficulty greater : Nat} {target lower : Hash256}

/-! ### The doubled quotient -/

/-- The integer that the target of a difficulty is made from. -/
def doubledQuotient (difficulty : Nat) : Nat := 2 * (2 ^ (255 : Nat) / difficulty)

theorem doubledQuotient_one : doubledQuotient 1 = 2 ^ (256 : Nat) := by
  decide

theorem doubledQuotient_mul_le (difficulty : Nat) :
    doubledQuotient difficulty * difficulty ≤ 2 ^ (256 : Nat) := by
  calc doubledQuotient difficulty * difficulty
      = 2 * (2 ^ (255 : Nat) / difficulty * difficulty) := Nat.mul_assoc 2 _ difficulty
    _ ≤ 2 * 2 ^ (255 : Nat) := Nat.mul_le_mul_left 2 (Nat.div_mul_le_self _ difficulty)
    _ = 2 ^ (256 : Nat) := rfl

theorem lt_doubledQuotient_mul (positive : 0 < difficulty) :
    2 ^ (256 : Nat) < (doubledQuotient difficulty + 2) * difficulty := by
  have quotient : 2 ^ (255 : Nat) < difficulty * (2 ^ (255 : Nat) / difficulty + 1) :=
    Nat.lt_mul_div_succ _ positive
  calc 2 ^ (256 : Nat)
      = 2 * 2 ^ (255 : Nat) := rfl
    _ < 2 * (difficulty * (2 ^ (255 : Nat) / difficulty + 1)) :=
        Nat.mul_lt_mul_of_pos_left quotient Nat.two_pos
    _ = (doubledQuotient difficulty + 2) * difficulty := by
        rw [doubledQuotient]
        ring

theorem doubledQuotient_antitone (positive : 0 < difficulty) (order : difficulty ≤ greater) :
    doubledQuotient greater ≤ doubledQuotient difficulty :=
  Nat.mul_le_mul_left 2 (Nat.div_le_div_left order positive)

/-- A difficulty of two or more leaves at most 256 binary digits. -/
theorem doubledQuotient_lt (several : 2 ≤ difficulty) :
    doubledQuotient difficulty < 2 ^ (256 : Nat) := by
  have half : doubledQuotient difficulty ≤ doubledQuotient 2 :=
    doubledQuotient_antitone Nat.two_pos several
  apply Nat.lt_of_le_of_lt half
  decide

/-- A difficulty beyond the dividend leaves nothing. -/
theorem doubledQuotient_eq_zero (beyond : 2 ^ (255 : Nat) < difficulty) :
    doubledQuotient difficulty = 0 := by
  rw [doubledQuotient, Nat.div_eq_of_lt beyond]

/-! ### The target -/

theorem toNat_allOnes : (FixedBytes.replicate 32 0xff : Hash256).toNat = 2 ^ (256 : Nat) - 1 := by
  decide

/-- A target as an integer, compared with the difficulty that it belongs to. -/
structure Targets (difficulty : Nat) (target : Hash256) : Prop where
  toNat_eq : target.toNat = min (2 ^ (256 : Nat) - 1) (doubledQuotient difficulty)
  /-- What is written into 32 bytes fits into them, and is read back. -/
  fits : difficulty ≠ 1 → doubledQuotient difficulty < 2 ^ (256 : Nat) ∧
    target = natPad32 (doubledQuotient difficulty) ∧ target.toNat = doubledQuotient difficulty
  /-- The one integer that does not fit is not written. -/
  cut : difficulty = 1 → doubledQuotient difficulty = 2 ^ (256 : Nat) ∧
    target = FixedBytes.replicate 32 0xff ∧ target.toNat = 2 ^ (256 : Nat) - 1
  beyond : 2 ^ (255 : Nat) < difficulty → target.toNat = 0
  mul_le : target.toNat * difficulty ≤ 2 ^ (256 : Nat)
  lt_mul : 2 ^ (256 : Nat) < (target.toNat + 2) * difficulty

theorem shareTarget_eq_error_iff {error : Error} :
    shareTarget difficulty = .error error ↔ difficulty = 0 ∧ error = .params .zeroDifficulty := by
  rw [shareTarget]
  by_cases zero : difficulty = 0
  · simp [zero, eq_comm]
  · rw [if_neg zero]
    simp only [zero, false_and, iff_false]
    split <;> simp

theorem shareTarget_one : shareTarget 1 = .ok (FixedBytes.replicate 32 0xff) := by
  rw [shareTarget, if_neg Nat.one_ne_zero]
  exact if_neg (by decide)

theorem shareTarget_of_several (several : 2 ≤ difficulty) :
    shareTarget difficulty = .ok (natPad32 (doubledQuotient difficulty)) := by
  have nonzero : difficulty ≠ 0 := by omega
  have small := doubledQuotient_lt several
  rw [doubledQuotient, Nat.mul_comm] at small
  rw [shareTarget, if_neg nonzero, doubledQuotient, Nat.mul_comm 2]
  exact if_pos small

theorem targets_one : Targets 1 (FixedBytes.replicate 32 0xff) where
  toNat_eq := by
    rw [toNat_allOnes, doubledQuotient_one]
    decide
  fits := fun other => absurd rfl other
  cut := fun _ => ⟨doubledQuotient_one, rfl, toNat_allOnes⟩
  beyond := fun beyond => absurd beyond (by decide)
  mul_le := by
    rw [toNat_allOnes]
    decide
  lt_mul := by
    rw [toNat_allOnes]
    decide

theorem targets_of_several (several : 2 ≤ difficulty) :
    Targets difficulty (natPad32 (doubledQuotient difficulty)) := by
  have small : doubledQuotient difficulty < 2 ^ (256 : Nat) := doubledQuotient_lt several
  have whole : (natPad32 (doubledQuotient difficulty)).toNat = doubledQuotient difficulty :=
    toNat_natPad32 small
  constructor
  · rw [whole, Nat.min_eq_right (Nat.le_sub_one_of_lt small)]
  · intro _
    exact ⟨small, rfl, whole⟩
  · intro one
    omega
  · intro beyond
    rw [whole, doubledQuotient_eq_zero beyond]
  · rw [whole]
    exact doubledQuotient_mul_le difficulty
  · rw [whole]
    exact lt_doubledQuotient_mul (Nat.lt_of_lt_of_le Nat.two_pos several)

/-- Every difficulty but zero has its target. -/
theorem exists_targets (positive : 0 < difficulty) :
    ∃ target, shareTarget difficulty = .ok target ∧ Targets difficulty target := by
  by_cases one : difficulty = 1
  · subst one
    exact ⟨_, shareTarget_one, targets_one⟩
  · have several : 2 ≤ difficulty := by omega
    exact ⟨_, shareTarget_of_several several, targets_of_several several⟩

theorem Targets.antitone (targets : Targets difficulty target) (positive : 0 < difficulty)
    (order : difficulty ≤ greater) (greaterTargets : Targets greater lower) :
    lower.toNat ≤ target.toNat := by
  rw [targets.toNat_eq, greaterTargets.toNat_eq]
  exact min_le_min_left _ (doubledQuotient_antitone positive order)

/-- The difficulty zero is refused as a wrong parameter, and no other. The target of any other difficulty is
twice the quotient of 2²⁵⁵ and the difficulty, or all ones where that does not fit into 32 bytes, and targets
do not grow with difficulties. -/
theorem shareTarget_exact (difficulty : Nat) :
    ((∃ error, shareTarget difficulty = .error error ∧ error.kind = .invalidParams) ↔ difficulty = 0) ∧
      (0 < difficulty → ∃ target, shareTarget difficulty = .ok target ∧ Targets difficulty target ∧
        ∀ greater, difficulty ≤ greater →
          ∃ lower, shareTarget greater = .ok lower ∧ lower.toNat ≤ target.toNat) := by
  constructor
  · simp only [shareTarget_eq_error_iff]
    constructor
    · rintro ⟨_, ⟨zero, _⟩, _⟩
      exact zero
    · intro zero
      exact ⟨_, ⟨zero, rfl⟩, rfl⟩
  · intro positive
    obtain ⟨target, made, targets⟩ := exists_targets positive
    refine ⟨target, made, targets, ?_⟩
    intro greater order
    obtain ⟨lower, alsoMade, greaterTargets⟩ := exists_targets (Nat.lt_of_lt_of_le positive order)
    exact ⟨lower, alsoMade, targets.antitone positive order greaterTargets⟩

theorem shareTarget_exact_three : 0 < 2 ∧ 2 ≤ 3 ∧
    ∃ target lower, shareTarget 2 = .ok target ∧ target.toNat = 2 ^ (255 : Nat) ∧
      shareTarget 3 = .ok lower ∧ lower.toNat ≤ target.toNat := by
  obtain ⟨target, made, targets, antitone⟩ := (shareTarget_exact 2).2 (by decide)
  obtain ⟨lower, alsoMade, order⟩ := antitone 3 (by decide)
  have value : target.toNat = doubledQuotient 2 := (targets.fits (by decide)).2.2
  exact ⟨by decide, by decide, target, lower, made, value.trans (by decide), alsoMade, order⟩

end MiningPool
