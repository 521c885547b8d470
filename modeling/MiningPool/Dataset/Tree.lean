/-
Module: MiningPool.Dataset.Tree
Purpose: trees over dataset words and the branches that a verifier takes.
Main exports: DatasetNode, DatasetTree, DatasetTree.branchElements, DatasetSummary
-/
import MiningPool.Dataset.Word
import MiningPool.Merkle.NodeHash
import MiningPool.Merkle.Tree

/-!
A leaf is the truncated hash of the word with its quarters reversed; a parent is the truncated hash of its
two children, each behind sixteen zero bytes. A verifier takes the siblings of a word two levels at a
time, the upper one in front of the lower one; a single sibling at the top is packed behind a zero hash.
-/

namespace MiningPool

/-- A node of a dataset tree. -/
structure DatasetNode where
  hash : NodeHash
deriving DecidableEq

instance : TreeNode Word DatasetNode where
  leaf word := ⟨truncatedKeccak word.conventional⟩
  combine left right := ⟨truncatedKeccak (left.hash.pad.toList ++ right.hash.pad.toList)⟩

abbrev DatasetBuilder := TreeBuilder Word DatasetNode

abbrev DatasetTree := Tree Word DatasetNode

namespace DatasetNode

/-- The node in diagnostics. -/
def diagnostic (node : DatasetNode) : String :=
  "DagNode(" ++ node.hash.namedText "NodeHash" ++ ")"

end DatasetNode

namespace DatasetTree

/-- Hashes from the bottom up, packed in pairs with the upper one in front. -/
def packPairs : List NodeHash → List BranchElement
  | [] => []
  | [lower] => [BranchElement.pack (FixedBytes.zero 16) lower]
  | lower :: upper :: rest => BranchElement.pack upper lower :: packPairs rest

/-- The packed siblings of every registration, in order. -/
def branchElements (tree : DatasetTree) : Except Error (List BranchElement) := do
  let branches ← tree.registeredBranches
  .ok (branches.flatMap fun branch => packPairs (branch.siblings.map (·.node.hash)))

/-- The word of every registration, in order. -/
def words (tree : DatasetTree) : Except Error (List Word) := do
  let branches ← tree.registeredBranches
  .ok (branches.map (·.element))

end DatasetTree

/-- What a verifier has to know of a dataset. -/
structure DatasetSummary where
  root : NodeHash
  /-- The number of words. -/
  elementCount : Nat
  /-- The binary digits of the last position, at least one. -/
  branchDepth : Nat
deriving DecidableEq

/-- The number of binary digits, one for zero. -/
def binaryDigits (n : Nat) : Nat := n.log2 + 1

def DatasetTree.summary (tree : DatasetTree) : DatasetSummary :=
  ⟨tree.root.hash, tree.leafCount, binaryDigits (tree.leafCount - 1)⟩

end MiningPool
