/-
Module: MiningPool.Proofs.Number.Rounding
Purpose: how far a floating-point result lies from the exact one.
Main exports: Binary64.toRat, Binary64.Rounds, Binary64.rounds_of_ofRatio?, Binary64.Rounds.le_of_le
-/
import Mathlib.Algebra.Order.Field.Power
import Mathlib.Data.Nat.Cast.Order.Field
import Mathlib.Data.Rat.Cast.Order
import Mathlib.Tactic.FieldSimp
import Mathlib.Tactic.Linarith
import Mathlib.Tactic.Positivity
import Mathlib.Tactic.Ring
import MiningPool.Number.Binary64

/-!
The exact result of an operation is written with 53 binary digits before the point, at the exponent that
this takes, and what follows the point is rounded away. So a result errs by at most half a unit of its last
digit. This is too little to pass a whole number of at most 53 digits, as long as the exact result does not
exceed that number by half of such a unit itself.
-/

namespace MiningPool

/-- The integer next to a quotient leaves out or adds at most half of the denominator. -/
theorem roundHalfEven_near (numerator : Nat) {denominator : Nat} (positive : 0 < denominator) :
    2 * (roundHalfEven numerator denominator * denominator) ≤ 2 * numerator + denominator ∧
      2 * numerator ≤ 2 * (roundHalfEven numerator denominator * denominator) + denominator := by
  have divided := Nat.div_add_mod' numerator denominator
  have less := Nat.mod_lt numerator positive
  rw [roundHalfEven]
  generalize numerator / denominator = quotient at divided ⊢
  generalize numerator % denominator = rest at divided less ⊢
  split
  · omega
  split
  · rw [Nat.add_mul]
    omega
  · rcases Nat.mod_two_eq_zero_or_one quotient with even | odd
    · rw [even, Nat.add_zero]
      omega
    · rw [odd, Nat.add_mul]
      omega

/-- Rounding to an integer errs by at most a half. -/
theorem abs_roundHalfEven_sub_le (numerator : Nat) {denominator : Nat} (positive : 0 < denominator) :
    |(roundHalfEven numerator denominator : ℚ) - numerator / denominator| ≤ 1 / 2 := by
  obtain ⟨above, below⟩ := roundHalfEven_near numerator positive
  generalize roundHalfEven numerator denominator = rounded at above below ⊢
  have positive' : (0 : ℚ) < denominator := by exact_mod_cast positive
  have above' : 2 * ((rounded : ℚ) * denominator) ≤ 2 * numerator + denominator := by exact_mod_cast above
  have below' : 2 * (numerator : ℚ) ≤ 2 * (rounded * denominator) + denominator := by exact_mod_cast below
  rw [abs_le, sub_le_iff_le_add, div_add_div _ _ two_ne_zero positive'.ne', le_div_iff₀ (by positivity),
    le_sub_iff_add_le, ← le_sub_iff_add_le', div_le_iff₀ positive']
  constructor <;> linarith

namespace Binary64

/-- The number itself. -/
def toRat (x : Binary64) : ℚ := x.mantissa * (2 : ℚ) ^ x.exponent

/-- A power of two as a quotient of integers. -/
theorem zpow_eq_div (exponent : Int) :
    (2 : ℚ) ^ exponent = (2 ^ exponent.toNat : Nat) / (2 ^ (-exponent).toNat : Nat) := by
  rcases Int.eq_nat_or_neg exponent with ⟨n, rfl | rfl⟩
  · simp
  · simp

theorem toRat_eq_div (x : Binary64) : x.toRat = x.numerator / x.denominator := by
  rw [toRat, zpow_eq_div, numerator, denominator, mul_div_assoc', Nat.cast_mul]

theorem toRat_nonneg (x : Binary64) : 0 ≤ x.toRat :=
  mul_nonneg (Nat.cast_nonneg _) (zpow_pos two_pos _).le

/-- The number that stands for a tenth is a little greater. -/
theorem toRat_tenth : tenth.toRat = (1 + 1 / 2 ^ (54 : Nat)) / 10 := by
  norm_num [toRat, tenth]

theorem floor_le_toRat (x : Binary64) : (x.floor : ℚ) ≤ x.toRat := by
  rw [toRat_eq_div, floor]
  exact Nat.cast_div_le

/-- The quotient in units of a power of two. -/
theorem div_zpow (exponent : Int) (numerator denominator : Nat) :
    (numerator : ℚ) / denominator / (2 : ℚ) ^ exponent =
      (numerator * 2 ^ (-exponent).toNat : Nat) / (denominator * 2 ^ exponent.toNat : Nat) := by
  rw [zpow_eq_div, Nat.cast_mul, Nat.cast_mul, div_div_div_eq]

section

variable {numerator denominator : Nat}

/-- The binary logarithms of its parts place a quotient between two powers of two. -/
theorem div_mem_of_log2 (numeratorPos : numerator ≠ 0) (denominatorPos : denominator ≠ 0) :
    (2 : ℚ) ^ ((numerator.log2 : Int) - denominator.log2 - 1) < numerator / denominator ∧
      (numerator : ℚ) / denominator < 2 ^ ((numerator.log2 : Int) - denominator.log2 + 1) := by
  have positive : (0 : ℚ) < denominator := by exact_mod_cast Nat.pos_of_ne_zero denominatorPos
  have atLeast : ∀ n : Nat, n ≠ 0 → (2 : ℚ) ^ (n.log2 : Int) ≤ n := by
    intro n notZero
    exact_mod_cast Nat.log2_self_le notZero
  have atMost : ∀ n : Nat, (n : ℚ) < 2 ^ ((n.log2 : Int) + 1) := by
    intro n
    exact_mod_cast Nat.lt_log2_self
  constructor
  · rw [lt_div_iff₀ positive]
    calc (2 : ℚ) ^ ((numerator.log2 : Int) - denominator.log2 - 1) * denominator
        < 2 ^ ((numerator.log2 : Int) - denominator.log2 - 1) * 2 ^ ((denominator.log2 : Int) + 1) := by
          gcongr
          exact atMost denominator
      _ = 2 ^ (numerator.log2 : Int) := by
          rw [← zpow_add₀ two_ne_zero]
          congr 1
          omega
      _ ≤ numerator := atLeast numerator numeratorPos
  · rw [div_lt_iff₀ positive]
    calc (numerator : ℚ) < 2 ^ ((numerator.log2 : Int) + 1) := atMost numerator
      _ = 2 ^ ((numerator.log2 : Int) - denominator.log2 + 1) * 2 ^ (denominator.log2 : Int) := by
          rw [← zpow_add₀ two_ne_zero]
          congr 1
          omega
      _ ≤ 2 ^ ((numerator.log2 : Int) - denominator.log2 + 1) * denominator := by
          gcongr
          exact atLeast denominator denominatorPos

theorem lt_mul_zpow_iff (denominatorPos : denominator ≠ 0) (bound : Nat) (exponent : Int) :
    numerator * 2 ^ (-exponent).toNat < bound * (denominator * 2 ^ exponent.toNat) ↔
      (numerator : ℚ) / denominator < bound * 2 ^ exponent := by
  have positive : 0 < denominator * 2 ^ exponent.toNat :=
    Nat.mul_pos (Nat.pos_of_ne_zero denominatorPos) (Nat.two_pow_pos _)
  have positive' : (0 : ℚ) < (denominator * 2 ^ exponent.toNat : Nat) := by exact_mod_cast positive
  rw [← div_lt_iff₀ (zpow_pos two_pos _), div_zpow, div_lt_iff₀ positive', ← Nat.cast_mul, Nat.cast_lt]

/-- At its exponent a quotient has at most 53 digits, and fewer only at the least exponent. -/
theorem exponentOf_spec (numeratorPos : numerator ≠ 0) (denominatorPos : denominator ≠ 0) :
    (numerator : ℚ) / denominator < 2 ^ (exponentOf numerator denominator + 53) ∧
      ((2 : ℚ) ^ (exponentOf numerator denominator + 52) ≤ numerator / denominator ∨
        exponentOf numerator denominator = leastExponent) := by
  obtain ⟨above, below⟩ := div_mem_of_log2 numeratorPos denominatorPos
  obtain ⟨exponent, atLeast, less, clamped⟩ : ∃ exponent : Int,
      (2 : ℚ) ^ (exponent + 52) ≤ numerator / denominator ∧
        (numerator : ℚ) / denominator < 2 ^ (exponent + 53) ∧
        exponentOf numerator denominator = max exponent leastExponent := by
    rw [exponentOf]
    simp only [lt_mul_zpow_iff denominatorPos]
    generalize (numerator.log2 : Int) - denominator.log2 = difference at above below ⊢
    have digits : ((2 ^ (52 : Nat) : Nat) : ℚ) * 2 ^ (difference - 52) = 2 ^ difference := by
      rw [Nat.cast_pow, Nat.cast_ofNat, ← zpow_natCast, ← zpow_add₀ two_ne_zero]
      congr 1
      omega
    rw [digits]
    rcases lt_or_ge ((numerator : ℚ) / denominator) (2 ^ difference) with fewer | enough
    · refine ⟨difference - 52 - 1, ?_, ?_, by rw [if_pos fewer]⟩
      · rw [show difference - 52 - 1 + 52 = difference - 1 by omega]
        exact above.le
      · rw [show difference - 52 - 1 + 53 = difference by omega]
        exact fewer
    · refine ⟨difference - 52, ?_, ?_, by rw [if_neg enough.not_gt]⟩
      · rw [Int.sub_add_cancel]
        exact enough
      · rw [show difference - 52 + 53 = difference + 1 by omega]
        exact below
  rw [clamped]
  rcases le_total leastExponent exponent with normal | small
  · rw [max_eq_left normal]
    exact ⟨less, .inl atLeast⟩
  · rw [max_eq_right small]
    exact ⟨less.trans_le (zpow_le_zpow_right₀ one_le_two (by omega)), .inr rfl⟩

/-- A value and the number that it is rounded to. -/
inductive Rounds (value : ℚ) : ℚ → Prop where
  | intro (digits : Nat) (exponent : Int)
      (close : |(digits : ℚ) - value / 2 ^ exponent| ≤ 1 / 2)
      (below : value < 2 ^ (exponent + 53))
      (full : (2 : ℚ) ^ (exponent + 52) ≤ value ∨ exponent = leastExponent) :
      Rounds value (digits * 2 ^ exponent)

theorem abs_roundAt_sub_le (denominatorPos : denominator ≠ 0) (exponent : Int) :
    |(roundAt exponent numerator denominator : ℚ) - numerator / denominator / 2 ^ exponent| ≤ 1 / 2 := by
  rw [div_zpow]
  exact abs_roundHalfEven_sub_le _
    (Nat.mul_pos (Nat.pos_of_ne_zero denominatorPos) (Nat.two_pow_pos _))

/-- A carry into a further digit leaves the number as it is. -/
theorem toRat_of_ofRatio? (numeratorPos : numerator ≠ 0) {x : Binary64}
    (rounded : ofRatio? numerator denominator = some x) :
    x.toRat = roundAt (exponentOf numerator denominator) numerator denominator *
      2 ^ exponentOf numerator denominator := by
  simp only [ofRatio?, if_neg numeratorPos, Option.ite_none_right_eq_some, Option.some.injEq] at rounded
  generalize exponentOf numerator denominator = exponent at rounded ⊢
  generalize roundAt exponent numerator denominator = digits at rounded ⊢
  by_cases carry : digits = 2 ^ (53 : Nat)
  · rw [← rounded.2, if_pos carry, carry, toRat, zpow_add_one₀ two_ne_zero]
    push_cast
    ring
  · rw [← rounded.2, if_neg carry, toRat]

/-- The number that an operation gives is the exact result, rounded. -/
theorem rounds_of_ofRatio? (denominatorPos : denominator ≠ 0) {x : Binary64}
    (rounded : ofRatio? numerator denominator = some x) :
    Rounds (numerator / denominator) x.toRat := by
  by_cases numeratorPos : numerator = 0
  · rw [ofRatio?, if_pos numeratorPos] at rounded
    cases rounded
    rw [numeratorPos, Nat.cast_zero, zero_div]
    exact .intro 0 leastExponent (by simp) (zpow_pos two_pos _) (.inr rfl)
  · obtain ⟨below, full⟩ := exponentOf_spec numeratorPos denominatorPos
    rw [toRat_of_ofRatio? numeratorPos rounded]
    exact .intro _ _ (abs_roundAt_sub_le denominatorPos _) below full

theorem rounds_of_ofNat? {n : Nat} {x : Binary64} (rounded : ofNat? n = some x) : Rounds n x.toRat := by
  have rounds := rounds_of_ofRatio? Nat.one_ne_zero rounded
  rwa [Nat.cast_one, div_one] at rounds

theorem rounds_of_mul? {x y z : Binary64} (rounded : x.mul? y = some z) :
    Rounds (x.toRat * y.toRat) z.toRat := by
  have notZero : x.denominator * y.denominator ≠ 0 :=
    Nat.mul_ne_zero (Nat.two_pow_pos _).ne' (Nat.two_pow_pos _).ne'
  have rounds := rounds_of_ofRatio? notZero rounded
  rwa [Nat.cast_mul, Nat.cast_mul, mul_div_mul_comm, ← toRat_eq_div, ← toRat_eq_div] at rounds

end

section

variable {value result : ℚ}

theorem Rounds.exponent_nonpos {exponent : Int} (small : value < 2 ^ (53 : Nat))
    (full : (2 : ℚ) ^ (exponent + 52) ≤ value ∨ exponent = leastExponent) : exponent ≤ 0 := by
  rcases full with full | least
  · by_contra positive
    have large : (2 : ℚ) ^ (53 : Int) ≤ 2 ^ (exponent + 52) :=
      zpow_le_zpow_right₀ one_le_two (by omega)
    exact absurd (large.trans full) (not_le_of_gt small)
  · rw [least]
    decide

/-- A value below 2⁵³ is rounded to a whole number of parts of one. -/
theorem Rounds.exists_scale (rounds : Rounds value result) (small : value < 2 ^ (53 : Nat)) :
    ∃ digits scale : Nat, 0 < scale ∧ result * scale = digits ∧
      (digits : ℚ) ≤ value * scale + 1 / 2 ∧ value * scale < 2 ^ (53 : Nat) ∧
      ((2 : ℚ) ^ (52 : Nat) ≤ value * scale ∨ 2 ^ (53 : Nat) < scale) := by
  obtain ⟨digits, exponent, close, below, full⟩ := rounds
  obtain ⟨places, rfl⟩ : ∃ places : Nat, exponent = -places := by
    have nonpos := exponent_nonpos small full
    exact ⟨exponent.natAbs, by omega⟩
  have positive : (0 : ℚ) < 2 ^ places := pow_pos two_pos places
  have unit : (2 : ℚ) ^ (-(places : Int)) = (2 ^ places)⁻¹ := by rw [zpow_neg, zpow_natCast]
  have scaled : ∀ n : Nat, (2 : ℚ) ^ (-(places : Int) + n) * 2 ^ places = 2 ^ n := by
    intro n
    rw [zpow_add₀ two_ne_zero, unit, zpow_natCast, mul_right_comm, inv_mul_cancel₀ positive.ne', one_mul]
  rw [unit, div_inv_eq_mul] at close
  refine ⟨digits, 2 ^ places, Nat.two_pow_pos places, ?_, ?_, ?_, ?_⟩ <;> push_cast
  · rw [unit, inv_mul_cancel_right₀ positive.ne']
  · exact sub_le_iff_le_add'.1 (abs_le.1 close).2
  · rw [← scaled 53]
    exact mul_lt_mul_of_pos_right below positive
  · refine full.imp (fun full => ?_) fun least => ?_
    · rw [← scaled 52]
      exact mul_le_mul_of_nonneg_right full positive.le
    · have many : 53 < places := by
        rw [leastExponent] at least
        omega
      exact Nat.pow_lt_pow_right Nat.one_lt_two many

/-- Rounding does not pass a whole number of at most 53 digits. -/
theorem Rounds.le_of_le (rounds : Rounds value result) {n : Nat} (short : n < 2 ^ (53 : Nat))
    (atMost : value ≤ n * (1 + 1 / 2 ^ (54 : Nat))) : result ≤ n := by
  have short' : (n : ℚ) + 1 ≤ 2 ^ (53 : Nat) := by exact_mod_cast short
  obtain ⟨digits, scale, positive, same, close, less, -⟩ := rounds.exists_scale (by linarith)
  have positive' : (0 : ℚ) < scale := by exact_mod_cast positive
  have scaled := mul_le_mul_of_nonneg_right atMost positive'.le
  refine le_of_mul_le_mul_right ?_ positive'
  rw [same]
  rcases Nat.lt_or_ge (n * scale) (2 ^ (53 : Nat)) with fewer | enough
  · have fewer' : (n : ℚ) * scale < 2 ^ (53 : Nat) := by exact_mod_cast fewer
    have near : (digits : ℚ) < n * scale + 1 := by linarith
    exact_mod_cast Nat.le_of_lt_succ (by exact_mod_cast near)
  · have near : (digits : ℚ) < 2 ^ (53 : Nat) + 1 := by linarith
    exact_mod_cast (Nat.le_of_lt_succ (by exact_mod_cast near)).trans enough

/-- Rounding does not reach a whole number of at most 53 digits from below. -/
theorem Rounds.lt_of_le (rounds : Rounds value result) {n : Nat} (notZero : 0 < n)
    (short : n < 2 ^ (53 : Nat)) (atMost : value ≤ n * (1 - 1 / 2 ^ (53 : Nat))) : result < n := by
  have notZero' : (1 : ℚ) ≤ n := by exact_mod_cast notZero
  have short' : (n : ℚ) + 1 ≤ 2 ^ (53 : Nat) := by exact_mod_cast short
  obtain ⟨digits, scale, positive, same, close, less, full⟩ := rounds.exists_scale (by linarith)
  have positive' : (0 : ℚ) < scale := by exact_mod_cast positive
  have scaled := mul_le_mul_of_nonneg_right atMost positive'.le
  refine lt_of_mul_lt_mul_right ?_ positive'.le
  rw [same]
  rcases Nat.lt_or_ge (2 ^ (53 : Nat)) (n * scale) with more | few
  · have near : (digits : ℚ) < 2 ^ (53 : Nat) + 1 := by linarith
    exact_mod_cast (Nat.le_of_lt_succ (by exact_mod_cast near)).trans_lt more
  · have few' : (n : ℚ) * scale ≤ 2 ^ (53 : Nat) := by exact_mod_cast few
    have enough : (2 : ℚ) ^ (52 : Nat) < n * scale := by
      rcases full with full | fine
      · exact full.trans_lt (by linarith)
      · have coarse := (Nat.le_mul_of_pos_left scale notZero).trans few
        exact absurd fine (Nat.not_lt_of_le coarse)
    linarith

/-- Rounding adds little, and next to nothing to the smallest values. -/
theorem Rounds.le_add (rounds : Rounds value result) (nonneg : 0 ≤ value) :
    result ≤ value * (1 + 1 / 2 ^ (53 : Nat)) + 1 / 2 ^ (64 : Nat) := by
  obtain ⟨digits, exponent, close, below, full⟩ := rounds
  have positive : (0 : ℚ) < 2 ^ exponent := zpow_pos two_pos exponent
  have near : (digits : ℚ) * 2 ^ exponent ≤ value + 2 ^ exponent / 2 := by
    have scaled := mul_le_mul_of_nonneg_right (sub_le_iff_le_add'.1 (abs_le.1 close).2) positive.le
    rw [add_mul, div_mul_cancel₀ _ positive.ne'] at scaled
    linarith
  rcases full with full | least
  · rw [zpow_add₀ two_ne_zero] at full
    norm_num at full ⊢
    linarith
  · have small : (2 : ℚ) ^ exponent ≤ 2 ^ (-64 : Int) :=
      zpow_le_zpow_right₀ one_le_two (by rw [least]; decide)
    norm_num at small ⊢
    linarith

end

end Binary64

end MiningPool
