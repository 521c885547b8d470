/-
Module: MiningPool.Proofs.Claim.Tree
Purpose: the tree over the shares of a claim and its summary.
Main exports: Claim.InOrder, Claim.tree_eq_ok, Claim.of_summary_eq_ok
-/
import MiningPool.Claim.Basic
import MiningPool.Proofs.Merkle.Elements
import MiningPool.Proofs.Share.RangeOrder

/-!
A claim with at least one and at most 2³² shares has a tree, whichever branch is kept, and its summary is
the root of the plain tree over its shares in the order of their counters.
-/

namespace MiningPool

theorem Share.counter_lt (share : Share) : share.counter < 2 ^ (128 : Nat) := by
  have timestamp := share.header.timestamp.toNat_lt
  have nonce := share.nonce.toNat_lt
  rw [Share.counter]
  omega

namespace Claim

/-! ### The order of the counters -/

/-- Shares in the order of their counters. -/
def InOrder (shares : List Share) : Prop :=
  shares.Pairwise fun earlier later => earlier.counter ≤ later.counter

theorem perm_sorted (claim : Claim) : claim.sorted.shares.Perm claim.shares :=
  List.mergeSort_perm _ _

@[simp] theorem size_sorted (claim : Claim) : claim.sorted.size = claim.size :=
  claim.perm_sorted.length_eq

theorem inOrder_sorted (claim : Claim) : InOrder claim.sorted.shares := by
  have transitive : ∀ a b c : Share, decide (a.counter ≤ b.counter) = true →
      decide (b.counter ≤ c.counter) = true → decide (a.counter ≤ c.counter) = true := by
    intro a b c first second
    exact decide_eq_true ((of_decide_eq_true first).trans (of_decide_eq_true second))
  have total : ∀ a b : Share,
      (decide (a.counter ≤ b.counter) || decide (b.counter ≤ a.counter)) = true := by
    intro a b
    simpa using Nat.le_total a.counter b.counter
  exact (List.pairwise_mergeSort transitive total claim.shares).imp
    fun before => of_decide_eq_true before

theorem sorted_eq_self {claim : Claim} (inOrder : InOrder claim.shares) : claim.sorted = claim := by
  have sorted : claim.shares.mergeSort (fun a b => decide (a.counter ≤ b.counter)) = claim.shares :=
    List.mergeSort_of_pairwise (inOrder.imp fun before => decide_eq_true before)
  rw [Claim.sorted, sorted]

theorem ordered_leaves {shares : List Share} (inOrder : InOrder shares) :
    RangeNode.Ordered (Merkle.leaves shares) where
  range := by
    intro node member
    obtain ⟨share, _, rfl⟩ := List.mem_map.1 member
    exact Nat.le_refl share.counter
  following := List.pairwise_map.2 inOrder

theorem bounded_leaves (shares : List Share) : RangeNode.Bounded (Merkle.leaves shares) := by
  intro node member
  obtain ⟨share, _, rfl⟩ := List.mem_map.1 member
  have small : share.counter < 256 ^ (32 : Nat) :=
    share.counter_lt.trans (by decide)
  exact ⟨small, small⟩

/-! ### The tree -/

/-- As long as 32 bits name its positions, a claim puts its shares into the tree like any elements. -/
theorem insertFrom_eq {builder : ShareTreeBuilder} {shares : List Share} {position : Nat}
    (few : position + shares.length ≤ 2 ^ (32 : Nat)) :
    insertFrom builder position shares = builder.insertFrom position shares := by
  induction shares generalizing builder position with
  | nil => rfl
  | cons share shares ih =>
      rw [List.length_cons] at few
      rw [insertFrom, if_pos (by omega), TreeBuilder.insertFrom]
      rcases builder.insert share position with ⟨larger, error | _⟩
      · rfl
      · exact ih (by omega)

theorem tree_eq_ofElements {claim : Claim} (few : claim.size ≤ 2 ^ (32 : Nat))
    (registered : Option Nat) :
    claim.tree registered = Tree.ofElements registered.toList claim.shares := by
  rw [Claim.tree, insertFrom_eq (by rwa [Nat.zero_add]), Tree.ofElements]
  cases (TreeBuilder.empty.register registered.toList : ShareTreeBuilder).insertFrom 0
    claim.shares <;> rfl

/-- Without a position of more than 32 bits, the tree of a claim is the plain tree over its
shares. -/
theorem tree_eq_ok {claim : Claim} (nonempty : 0 < claim.size) (few : claim.size ≤ 2 ^ (32 : Nat))
    (registered : Option Nat) :
    ∃ tree, claim.tree registered = .ok tree ∧ tree.registered = registered.toList ∧
      Merkle.Complete claim.shares
        (fun place => place < claim.size ∧ place ∈ registered.toList) tree := by
  rw [tree_eq_ofElements few]
  exact Merkle.ofElements_eq_ok nonempty registered.toList

theorem length_le_of_insertFrom {builder full : ShareTreeBuilder} {shares : List Share}
    {position : Nat} (low : position ≤ 2 ^ (32 : Nat))
    (inserted : insertFrom builder position shares = .ok full) :
    position + shares.length ≤ 2 ^ (32 : Nat) := by
  induction shares generalizing builder position with
  | nil => simpa using low
  | cons share shares ih =>
      rw [insertFrom] at inserted
      split at inserted
      · rcases larger : builder.insert share position with ⟨next, error | _⟩
        · simp [larger] at inserted
        · rw [larger] at inserted
          have rest := ih (by omega) inserted
          rw [List.length_cons]
          omega
      · cases inserted

theorem size_le_of_tree {claim : Claim} {registered : Option Nat} {tree : ShareTree}
    (built : claim.tree registered = .ok tree) : claim.size ≤ 2 ^ (32 : Nat) := by
  rw [Claim.tree] at built
  split at built
  · cases built
  · rename_i full inserted
    simpa [size] using length_le_of_insertFrom (Nat.zero_le _) inserted

/-! ### The summary -/

/-- A claim that is neither empty nor too large has a summary. -/
theorem exists_summary_eq {claim : Claim} (nonempty : 0 < claim.size)
    (few : claim.size ≤ 2 ^ (32 : Nat)) : ∃ summary, claim.summary = .ok summary := by
  rw [← size_sorted] at nonempty few
  obtain ⟨tree, built, _⟩ := tree_eq_ok nonempty few none
  cases found : claim.minDifficulty with
  | none =>
      rw [minDifficulty, List.min?_eq_none_iff, List.map_eq_nil_iff] at found
      rw [size_sorted, size, found] at nonempty
      cases nonempty
  | some least => exact ⟨_, by rw [summary, found, built]⟩

/-- What a summary says of the claim: its size and the root of the plain tree over its shares in the
order of their counters. -/
theorem of_summary_eq_ok {claim : Claim} {summary : ClaimSummary}
    (summarized : claim.summary = .ok summary) :
    0 < claim.size ∧ claim.size ≤ 2 ^ (32 : Nat) ∧ summary.numShares = claim.size ∧
      Merkle.level (Merkle.leaves claim.sorted.shares) (Nat.clog 2 claim.size) =
        [(⟨summary.minCounter, summary.maxCounter, summary.rootHash⟩ : RangeNode)] := by
  rw [Claim.summary] at summarized
  split at summarized
  · cases summarized
  · rename_i least found
    have nonempty : 0 < claim.size := by
      by_contra none
      have empty : claim.shares = [] := List.length_eq_zero_iff.1 (by simp [size] at none ⊢; omega)
      simp [minDifficulty, empty] at found
    split at summarized
    · cases summarized
    · rename_i tree built
      have few := size_le_of_tree built
      have sortedNonempty : 0 < claim.sorted.size := by simpa using nonempty
      obtain ⟨same, sameBuilt, _, complete⟩ := tree_eq_ok sortedNonempty few none
      rw [sameBuilt] at built
      cases built
      cases summarized
      have root := complete.root
      rw [show claim.sorted.shares.length = claim.size from claim.size_sorted] at root
      exact ⟨nonempty, by simpa using few, rfl, root⟩

end Claim

end MiningPool
