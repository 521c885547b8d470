/-
Module: MiningPool.Proofs.BigEndian
Purpose: integers as byte strings and back.
Main exports: natBE_minimalBE, natBE_fixedBE, natBE_injective, toNat_natPad32, natPad32_toNat
-/
import Mathlib.Data.List.Induction
import Mathlib.Tactic.Ring
import MiningPool.Block.Value
import MiningPool.Number.Power

/-!
A big-endian byte string is a number in base 256. Its shortest spelling reads back for every number, the
spelling in 32 bytes for every number that fits, and 32 bytes are the spelling of what they read as.
-/

namespace MiningPool

/-! ### Reading -/

theorem natBE_concat (bytes : List UInt8) (last : UInt8) :
    natBE (bytes ++ [last]) = natBE bytes * 256 + last.toNat := by
  simp [natBE]

theorem natBE_append (high low : List UInt8) :
    natBE (high ++ low) = natBE high * 256 ^ low.length + natBE low := by
  induction low using List.reverseRecOn with
  | nil => simp [natBE]
  | append_singleton low last ih =>
      rw [← List.append_assoc, natBE_concat, ih, natBE_concat, List.length_append,
        List.length_singleton, Nat.pow_succ]
      ring

theorem natBE_lt (bytes : List UInt8) : natBE bytes < 256 ^ bytes.length := by
  induction bytes using List.reverseRecOn with
  | nil => simp [natBE]
  | append_singleton bytes last ih =>
      have small := last.toNat_lt
      rw [natBE_concat, List.length_append, List.length_singleton, Nat.pow_succ]
      omega

/-- Byte strings of one length are told apart by what they read as. -/
theorem natBE_injective {left right : List UInt8} (lengths : left.length = right.length)
    (values : natBE left = natBE right) : left = right := by
  induction left using List.reverseRecOn generalizing right with
  | nil => exact (List.length_eq_zero_iff.1 lengths.symm).symm
  | append_singleton left last ih =>
      rcases List.eq_nil_or_concat right with rfl | ⟨right, other, rfl⟩
      · simp at lengths
      · rw [List.concat_eq_append] at lengths values ⊢
        rw [natBE_concat, natBE_concat] at values
        have lastSmall := last.toNat_lt
        have otherSmall := other.toNat_lt
        rw [ih (by simpa using lengths) (by omega)]
        rw [UInt8.toNat_inj.1 (by omega : last.toNat = other.toNat)]

theorem natBE_zeros (count : Nat) (bytes : List UInt8) :
    natBE (List.replicate count 0 ++ bytes) = natBE bytes := by
  have zeros : natBE (List.replicate count 0) = 0 := by
    induction count with
    | zero => rfl
    | succ count ih => rw [List.replicate_succ', natBE_concat, ih]; rfl
  rw [natBE_append, zeros, Nat.zero_mul, Nat.zero_add]

/-! ### Writing -/

theorem natBE_minimalBE (n : Nat) : natBE (minimalBE n) = n := by
  induction n using Nat.strongRecOn with
  | ind n ih =>
      rw [minimalBE]
      split
      · simp_all [natBE]
      · rw [natBE_concat, ih (n / 256) (by omega), UInt8.toNat_ofNat']
        omega

theorem length_minimalBE_le {n width : Nat} (fits : n < 256 ^ width) :
    (minimalBE n).length ≤ width := by
  induction width generalizing n with
  | zero =>
      have zero : n = 0 := by simpa using fits
      rw [zero, minimalBE]
      simp
  | succ width ih =>
      rw [minimalBE]
      split
      · simp
      · rw [List.length_append, List.length_singleton]
        have shorter : n / 256 < 256 ^ width := by
          rw [Nat.pow_succ] at fits
          exact Nat.div_lt_of_lt_mul (by omega)
        have := ih shorter
        omega

theorem natBE_fixedBE (width n : Nat) : natBE (fixedBE width n) = n % 256 ^ width := by
  induction width generalizing n with
  | zero => rw [Nat.pow_zero, Nat.mod_one]; rfl
  | succ width ih =>
      have last : n % 256 ^ (width + 1) = n % 256 + 256 * (n / 256 % 256 ^ width) := by
        rw [Nat.pow_succ', Nat.mod_mul]
      rw [fixedBE, natBE_concat, ih, last, UInt8.toNat_ofNat']
      omega

/-! ### Numbers in 32 bytes -/

namespace FixedBytes

theorem toNat_lt {n : Nat} (bytes : FixedBytes n) : bytes.toNat < 256 ^ n := by
  have small := natBE_lt bytes.toList
  rwa [bytes.length_toList] at small

theorem toNat_inj {n : Nat} {left right : FixedBytes n} :
    left.toNat = right.toNat ↔ left = right := by
  refine ⟨fun same => ?_, congrArg _⟩
  apply toList_injective
  exact natBE_injective (by rw [left.length_toList, right.length_toList]) same

end FixedBytes

theorem toNat_pad32 {bytes : List UInt8} (short : bytes.length ≤ 32) :
    (pad32 bytes).toNat = natBE bytes := by
  simp only [FixedBytes.toNat, pad32, Nat.sub_eq_zero_of_le short, List.drop_zero, natBE_zeros]

/-- A number that fits into 32 bytes is read back. -/
theorem toNat_natPad32 {n : Nat} (fits : n < 256 ^ (32 : Nat)) : (natPad32 n).toNat = n := by
  rw [natPad32, toNat_pad32 (length_minimalBE_le fits), natBE_minimalBE]

/-- What 32 bytes read as is spelled by them. -/
theorem natPad32_toNat (bytes : FixedBytes 32) : natPad32 bytes.toNat = bytes :=
  FixedBytes.toNat_inj.1 (toNat_natPad32 bytes.toNat_lt)

end MiningPool
