/-
Module: MiningPool.Merkle.Tree
Purpose: trees that take their leaves one at a time and keep the branches of registered leaves.
Main exports: TreeBuilder, TreeBuilder.insert, TreeBuilder.close, Tree, Tree.branch
-/
import MiningPool.Error
import MiningPool.Merkle.Branch

/-!
Leaves arrive from left to right. The builder keeps a stack of complete subtrees, the last one on top;
two subtrees with the same number of leaves are combined as soon as they meet, like the carries of a
binary counter, so that the stack holds one subtree for each binary digit one of the number of leaves.

A position that has been registered before its leaf arrives gets a branch, which grows with every
combination around it. Closing a tree combines the topmost subtree with a copy of itself until one is
left; the copy holds no branches.
-/

namespace MiningPool

/-- A complete subtree that waits for an equal one. -/
structure Pending (ε ν : Type) where
  node : ν
  /-- The number of leaves, copies included. -/
  leaves : Nat
  /-- The branches of its registered leaves by position. -/
  branches : List (Nat × Branch ε ν)

namespace Pending

variable {ε ν : Type}

/-- Two neighbouring subtrees as one. -/
def merge [TreeNode ε ν] (left right : Pending ε ν) : Pending ε ν where
  node := TreeNode.combine left.node right.node
  leaves := left.leaves + right.leaves
  branches :=
    left.branches.map (fun (position, branch) => (position, branch.acceptRight right.node)) ++
      right.branches.map (fun (position, branch) => (position, branch.acceptLeft left.node))

/-- A copy without branches. -/
def duplicate (pending : Pending ε ν) : Pending ε ν := { pending with branches := [] }

/-- Puts a subtree on a stack and combines equal ones. -/
def push [TreeNode ε ν] : List (Pending ε ν) → Pending ε ν → List (Pending ε ν)
  | [], pending => [pending]
  | top :: rest, pending =>
    if top.leaves = pending.leaves then push rest (merge top pending) else pending :: top :: rest

/-- Combines the topmost subtree with a copy of itself until one is left, in at most this many
rounds. -/
def closeWithin [TreeNode ε ν] : Nat → List (Pending ε ν) → Option (Pending ε ν)
  | _, [] => none
  | _, [last] => some last
  | 0, _ :: _ :: _ => none
  | rounds + 1, top :: rest => closeWithin rounds (push (top :: rest) top.duplicate)

end Pending

/-- A tree under construction. -/
structure TreeBuilder (ε ν : Type) where
  /-- The complete subtrees, the last one first. -/
  stack : List (Pending ε ν)
  /-- The registered positions in order, repeats included. -/
  registered : List Nat
  /-- The number of leaves so far. -/
  inserted : Nat

/-- A tree that takes no more leaves. -/
structure Tree (ε ν : Type) where
  root : ν
  /-- The number of leaves that were inserted. -/
  leafCount : Nat
  /-- The number of leaves with all copies. -/
  paddedLeaves : Nat
  branches : List (Nat × Branch ε ν)
  /-- The registered positions in order, repeats included. -/
  registered : List Nat

namespace TreeBuilder

variable {ε ν : Type}

/-- A tree without leaves. -/
def empty : TreeBuilder ε ν := ⟨[], [], 0⟩

/-- Marks positions whose branches are to be kept, from now on. -/
def register (builder : TreeBuilder ε ν) (positions : List Nat) : TreeBuilder ε ν :=
  { builder with registered := builder.registered ++ positions }

/-- Adds the leaf of an element at a position, which must be the next one. -/
def insert [TreeNode ε ν] (builder : TreeBuilder ε ν) (element : ε) (position : Nat) :
    TreeBuilder ε ν × Except Error Unit :=
  if position = builder.inserted then
    let node : ν := TreeNode.leaf element
    let branches :=
      if position ∈ builder.registered then [(position, Branch.start element node)] else []
    ({ builder with
      stack := Pending.push builder.stack ⟨node, 1, branches⟩
      inserted := builder.inserted + 1 }, .ok ())
  else (builder, .error (.tree (.outOfOrder position builder.inserted)))

/-- Completes the tree with copies and takes its root. -/
def close [TreeNode ε ν] (builder : TreeBuilder ε ν) : Except Error (Tree ε ν) :=
  match Pending.closeWithin (builder.inserted.log2 + 1) builder.stack with
  | none => .error (.tree .noLeaves)
  | some top => .ok ⟨top.node, builder.inserted, top.leaves, top.branches, builder.registered⟩

end TreeBuilder

namespace Tree

variable {ε ν : Type}

/-- The number of levels between a leaf and the root. -/
def depth (tree : Tree ε ν) : Nat := tree.paddedLeaves.log2

/-- The branch of a registered position. -/
def branch (tree : Tree ε ν) (position : Nat) : Except Error (Branch ε ν) :=
  if position ∈ tree.registered then
    match tree.branches.find? (·.1 = position) with
    | some (_, branch) => .ok branch
    | none => .error (.tree (.noBranch position tree.leafCount))
  else .error (.tree (.notRegistered position))

/-- One branch for every registration, in order. -/
def registeredBranches (tree : Tree ε ν) : Except Error (List (Branch ε ν)) :=
  tree.registered.mapM tree.branch

end Tree

end MiningPool
