/-
Module: MiningPool.Proofs.Dataset.Word
Purpose: the integers of a dataset word and the bytes that are hashed.
Main exports: Word.flatMap_integers, Word.conventional_injective
-/
import Mathlib.Data.List.Basic
import MiningPool.Dataset.Word
import MiningPool.Proofs.BigEndian

/-!
The integers of a word are its quarters read from the lowest byte up. Spelled with the highest byte first
they are the reversed quarters, so that a verifier who has the integers hashes the same bytes as the tree.
The word can be told from these bytes, because the quarters of all words have one length.
-/

namespace MiningPool

/-! ### Blocks of one length -/

/-- A byte string is its blocks of one length back to back. -/
theorem flatten_blocks {width : Nat} (count : Nat) {bytes : List UInt8}
    (length : bytes.length = width * count) :
    ((List.range count).map fun i => (bytes.drop (width * i)).take width).flatten = bytes := by
  induction count generalizing bytes with
  | zero =>
      rw [Nat.mul_zero] at length
      exact (List.length_eq_zero_iff.1 length).symm
  | succ count ih =>
      rw [Nat.mul_succ] at length
      have later : ∀ i, (bytes.drop (width * (i + 1))).take width =
          ((bytes.drop width).drop (width * i)).take width := by
        intro i
        rw [List.drop_drop, Nat.mul_succ, Nat.add_comm width]
      have shorter : (bytes.drop width).length = width * count := by
        rw [List.length_drop, length, Nat.add_sub_cancel]
      have rest := ih shorter
      rw [List.range_succ_eq_map, List.map_cons, List.flatten_cons, List.map_map]
      simp only [Function.comp_def, Nat.succ_eq_add_one, later, rest]
      rw [Nat.mul_zero, List.drop_zero, List.take_append_drop]

/-- Blocks of one length can be told from what they are back to back. -/
theorem flatten_injective {width : Nat} {left right : List (List UInt8)}
    (count : left.length = right.length) (leftBlocks : ∀ block ∈ left, block.length = width)
    (rightBlocks : ∀ block ∈ right, block.length = width) (same : left.flatten = right.flatten) :
    left = right := by
  induction left generalizing right with
  | nil => exact (List.length_eq_zero_iff.1 count.symm).symm
  | cons first left ih =>
      cases right with
      | nil => cases count
      | cons other right =>
          rw [List.flatten_cons, List.flatten_cons] at same
          obtain ⟨rfl, rest⟩ := List.append_inj same
            ((leftBlocks _ List.mem_cons_self).trans (rightBlocks _ List.mem_cons_self).symm)
          rw [ih (Nat.succ.inj count) (fun _ member => leftBlocks _ (.tail _ member))
            (fun _ member => rightBlocks _ (.tail _ member)) rest]

/-! ### Integers with the lowest byte first -/

theorem natLE_eq_natBE_reverse (bytes : List UInt8) : natLE bytes = natBE bytes.reverse := by
  induction bytes with
  | nil => rfl
  | cons first bytes ih =>
      rw [List.reverse_cons, natBE_concat, ← ih]
      rfl

/-- What 32 bytes read as from the lowest byte up is spelled by them in reverse. -/
theorem natPad32_natLE {bytes : List UInt8} (length : bytes.length = 32) :
    (natPad32 (natLE bytes)).toList = bytes.reverse := by
  have spelled := natPad32_toNat ⟨bytes.reverse, by rw [List.length_reverse, length]⟩
  rw [natLE_eq_natBE_reverse]
  exact congrArg FixedBytes.toList spelled

namespace Word

theorem length_quarters (word : Word) : word.quarters.length = 4 := by
  rw [quarters, List.length_map, List.length_range]

theorem length_of_mem_quarters {word : Word} {quarter : List UInt8}
    (member : quarter ∈ word.quarters) : quarter.length = 32 := by
  obtain ⟨i, inside, rfl⟩ := List.mem_map.1 member
  have four : i < 4 := List.mem_range.1 inside
  rw [List.length_take, List.length_drop, word.length_toList]
  omega

theorem length_integers (word : Word) : word.integers.length = 4 := by
  rw [integers, List.length_map, length_quarters]

/-- The integers in 32 bytes each are the bytes that are hashed. -/
theorem flatMap_integers (word : Word) :
    word.integers.flatMap (fun integer => (natPad32 integer).toList) = word.conventional := by
  rw [integers, List.flatMap_map, conventional]
  apply List.flatMap_congr
  intro quarter member
  exact natPad32_natLE (length_of_mem_quarters member)

theorem conventional_injective {left right : Word} (same : left.conventional = right.conventional) :
    left = right := by
  have reversed : ∀ word : Word, ∀ block ∈ word.quarters.map List.reverse, block.length = 32 := by
    intro word block member
    obtain ⟨quarter, inside, rfl⟩ := List.mem_map.1 member
    rw [List.length_reverse, length_of_mem_quarters inside]
  have blocks : left.quarters.map List.reverse = right.quarters.map List.reverse := by
    apply flatten_injective
    · simp only [List.length_map, length_quarters]
    · exact reversed left
    · exact reversed right
    · exact same
  have quarters : left.quarters = right.quarters := List.map_injective_iff.2 List.reverse_injective blocks
  have joined : ∀ word : Word, word.quarters.flatten = word.toList := by
    intro word
    exact flatten_blocks 4 word.length_toList
  apply FixedBytes.toList_injective
  rw [← joined left, ← joined right, quarters]

end Word

end MiningPool
