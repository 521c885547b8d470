/-
Module: MiningPool.Share.Tree
Purpose: trees over shares whose nodes know the range of counters below them.
Main exports: RangeNode, ShareTree, ShareTree.counterBranch, ShareTree.hashBranch
-/
import MiningPool.Merkle.Tree
import MiningPool.Share.Basic

/-!
A node carries the least and the greatest counter of its subtree besides its hash. The hash of a parent
takes in the least counter of the earlier child and the greatest counter of the later one, each before
the hash of that child. A verifier therefore needs one counter for each level of a branch: the greatest
one of a later sibling, or the least one of an earlier sibling.
-/

namespace MiningPool

/-- A node of a tree over shares. -/
structure RangeNode where
  min : Nat
  max : Nat
  hash : NodeHash
deriving DecidableEq

namespace RangeNode

/-- What the hash of a parent is taken of. -/
def hashInput (left right : RangeNode) : List UInt8 :=
  (natPad32 left.min).toList ++ left.hash.pad.toList ++
    ((natPad32 right.max).toList ++ right.hash.pad.toList)

/-- The parent of an earlier and a later node. -/
def join (left right : RangeNode) : RangeNode where
  min := Nat.min left.min right.min
  max := Nat.max left.max right.max
  hash := truncatedKeccak (hashInput left right)

/-- The node of a single share. -/
def ofShare (share : Share) : RangeNode := ⟨share.counter, share.counter, share.hash⟩

/-- The node in diagnostics. -/
def diagnostic (node : RangeNode) : String :=
  s!"AugNode \x7b min: {node.min}, max: {node.max}, hash: " ++ node.hash.namedText "NodeHash" ++ " \x7d"

end RangeNode

instance : TreeNode Share RangeNode where
  leaf := RangeNode.ofShare
  combine := RangeNode.join

abbrev ShareTreeBuilder := TreeBuilder Share RangeNode

abbrev ShareTree := Tree Share RangeNode

namespace ShareTree

/-- The counters beside a path, chosen by the binary digits of the position: the greatest counter of a
sibling behind an even position, the least one of a sibling before an odd position. -/
def countersFrom (position : Nat) : List (Sibling RangeNode) → List (FixedBytes 32)
  | [] => []
  | sibling :: rest =>
    natPad32 (if position % 2 = 0 then sibling.node.max else sibling.node.min) ::
      countersFrom (position / 2) rest

/-- The counters beside the paths of all registrations, in order. -/
def counterBranch (tree : ShareTree) : Except Error (List (FixedBytes 32)) := do
  let branches ← tree.registeredBranches
  .ok ((tree.registered.zip branches).flatMap fun (position, branch) =>
    countersFrom position branch.siblings)

/-- The padded hashes beside the paths of all registrations, in order. -/
def hashBranch (tree : ShareTree) : Except Error (List (FixedBytes 32)) := do
  let branches ← tree.registeredBranches
  .ok (branches.flatMap fun branch => branch.siblings.map (·.node.hash.pad))

end ShareTree

end MiningPool
