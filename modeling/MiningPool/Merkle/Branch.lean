/-
Module: MiningPool.Merkle.Branch
Purpose: the path from a leaf to the root of a tree, with the subtrees beside it.
Main exports: TreeNode, Branch, Branch.siblings, Branch.computeRoot
-/

/-!
A branch starts as a single leaf and grows by one level whenever the subtree that holds the leaf is
combined with another one: the node of that other subtree is put beside the path, on the side where it
stands. What is kept is thus a binary tree in which every subtree off the path is a single node.

The branch is read in several ways: as the list of siblings from the leaf up, as the list of nodes that
begins with the leaf, and as the root that leaf and siblings combine to.
-/

namespace MiningPool

/-- Nodes of type `ν` over elements of type `ε`: a leaf for every element and an operation, sensitive
to order, that makes the parent of two nodes. -/
class TreeNode (ε : outParam Type) (ν : Type) where
  leaf : ε → ν
  /-- The parent of an earlier and a later node. -/
  combine : ν → ν → ν

/-- Where a sibling stands as seen from the path. -/
inductive Side where
  | left
  | right
deriving Repr, DecidableEq

/-- A node beside the path. -/
structure Sibling (ν : Type) where
  side : Side
  node : ν
deriving Repr, DecidableEq

/-- The path from a leaf upwards; the outermost constructor is the highest level. -/
inductive Path (ν : Type) where
  | leaf (node : ν)
  /-- The path continues on the right of this node. -/
  | afterNode (sibling : ν) (below : Path ν)
  /-- The path continues on the left of this node. -/
  | beforeNode (below : Path ν) (sibling : ν)
deriving Repr, DecidableEq

namespace Path

variable {ν : Type}

/-- The node at the bottom. -/
def bottom : Path ν → ν
  | leaf node => node
  | afterNode _ below => below.bottom
  | beforeNode below _ => below.bottom

/-- The node at the bottom and the siblings, from the bottom up. -/
def nodes : Path ν → List ν
  | leaf node => [node]
  | afterNode sibling below => below.nodes ++ [sibling]
  | beforeNode below sibling => below.nodes ++ [sibling]

/-- The siblings with their sides, from the bottom up. -/
def siblings : Path ν → List (Sibling ν)
  | leaf _ => []
  | afterNode sibling below => below.siblings ++ [⟨.left, sibling⟩]
  | beforeNode below sibling => below.siblings ++ [⟨.right, sibling⟩]

end Path

/-- The path of a leaf together with the element that the leaf was made of. -/
structure Branch (ε ν : Type) where
  element : ε
  path : Path ν
deriving Repr, DecidableEq

namespace Branch

variable {ε ν : Type}

/-- A branch of height zero. -/
def start (element : ε) (leaf : ν) : Branch ε ν := ⟨element, .leaf leaf⟩

/-- The branch after its subtree has been combined with an earlier one. -/
def acceptLeft (branch : Branch ε ν) (sibling : ν) : Branch ε ν :=
  { branch with path := .afterNode sibling branch.path }

/-- The branch after its subtree has been combined with a later one. -/
def acceptRight (branch : Branch ε ν) (sibling : ν) : Branch ε ν :=
  { branch with path := .beforeNode branch.path sibling }

/-- The node at the bottom. -/
def leaf (branch : Branch ε ν) : ν := branch.path.bottom

/-- The leaf and the siblings, from the bottom up. -/
def nodes (branch : Branch ε ν) : List ν := branch.path.nodes

/-- The siblings with their sides, from the bottom up. -/
def siblings (branch : Branch ε ν) : List (Sibling ν) := branch.path.siblings

/-- The number of levels above the leaf. -/
def depth (branch : Branch ε ν) : Nat := branch.siblings.length

/-- The parent of a node and its sibling. -/
def climb [TreeNode ε ν] (node : ν) (sibling : Sibling ν) : ν :=
  match sibling.side with
  | .right => TreeNode.combine node sibling.node
  | .left => TreeNode.combine sibling.node node

/-- The node that leaf and siblings combine to. -/
def computeRoot [TreeNode ε ν] (branch : Branch ε ν) : ν :=
  branch.siblings.foldl climb branch.leaf

end Branch

end MiningPool
