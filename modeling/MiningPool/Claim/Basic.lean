/-
Module: MiningPool.Claim.Basic
Purpose: claims, the batches of shares that are committed to the pool contract.
Main exports: Claim, Claim.sorted, Claim.summary, ClaimSummary
-/
import MiningPool.Number.Power
import MiningPool.Share.Tree

/-!
A claim collects shares in the order in which they arrive. What is committed is always the tree over the
shares in the order of their counters; shares with equal counters keep their order. The contract is given
the number of shares, the least difficulty, the range of the counters and the root of the tree.
-/

namespace MiningPool

/-- Shares that are committed together, in order of arrival. -/
structure Claim where
  shares : List Share
deriving DecidableEq

/-- What the contract is told of a claim. -/
structure ClaimSummary where
  numShares : Nat
  minDifficulty : Nat
  minCounter : Nat
  maxCounter : Nat
  rootHash : NodeHash
deriving DecidableEq

namespace Claim

def empty : Claim := ⟨[]⟩

/-- The number of shares. -/
def size (claim : Claim) : Nat := claim.shares.length

/-- The claim with one more share. -/
def push (claim : Claim) (share : Share) : Claim := ⟨claim.shares ++ [share]⟩

/-- The least share difficulty, if there is a share. -/
def minDifficulty (claim : Claim) : Option Nat := (claim.shares.map (·.difficulty)).min?

/-- The claim in the order of its counters. -/
def sorted (claim : Claim) : Claim :=
  ⟨claim.shares.mergeSort fun a b => a.counter ≤ b.counter⟩

/-- Puts shares into a tree at the positions from `position` on. -/
def insertFrom (tree : ShareTreeBuilder) (position : Nat) : List Share → Except Error ShareTreeBuilder
  | [] => .ok tree
  | share :: rest =>
    if position < 2 ^ (32 : Nat) then
      match tree.insert share position with
      | (_, .error error) => .error error
      | (tree, .ok ()) => insertFrom tree (position + 1) rest
    else .error (.state .tooManyShares)

/-- The tree over the shares in their present order, with the branch of a position if one is given. -/
def tree (claim : Claim) (registered : Option Nat) : Except Error ShareTree :=
  match insertFrom (TreeBuilder.empty.register registered.toList) 0 claim.shares with
  | .error error => .error error
  | .ok tree => tree.close

/-- What the contract is told of the claim. -/
def summary (claim : Claim) : Except Error ClaimSummary :=
  match claim.minDifficulty with
  | none => .error (.state .emptySummary)
  | some minDifficulty =>
    match claim.sorted.tree none with
    | .error error => .error error
    | .ok tree =>
      .ok ⟨claim.size, minDifficulty, tree.root.min, tree.root.max, tree.root.hash⟩

end Claim

end MiningPool
