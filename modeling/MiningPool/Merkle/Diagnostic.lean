/-
Module: MiningPool.Merkle.Diagnostic
Purpose: trees and branches in one line, for diagnostics.
Main exports: Tree.diagnostic, Branch.diagnostic
-/
import MiningPool.Merkle.Tree

/-!
A tree shows its root, its size and what was registered; a branch shows its leaf and its height. How a
node is shown is left to the kind of node.
-/

namespace MiningPool

/-- A list of numbers between brackets. -/
def bracketed (numbers : List Nat) : String :=
  "[" ++ ", ".intercalate (numbers.map toString) ++ "]"

def Tree.diagnostic {ε ν : Type} (showNode : ν → String) (tree : Tree ε ν) : String :=
  "FinalizedTree \x7b root: " ++ showNode tree.root ++
    s!", leaf_count: {tree.leafCount}, depth: {tree.depth}, registered: " ++
    bracketed tree.registered ++ " \x7d"

def Branch.diagnostic {ε ν : Type} (showNode : ν → String) (branch : Branch ε ν) : String :=
  "ProofBranch \x7b leaf: " ++ showNode branch.leaf ++ s!", depth: {branch.depth} \x7d"

end MiningPool
