/-
Module: MiningPool.Proofs.Share.Extent
Purpose: the range of a node is that of the shares below it, in whatever order they stand.
Main exports: Merkle.block, RangeNode.Spans, RangeNode.spans_of_level, ShareTree.Enclosed,
  ShareTree.enclosed_of_calls
-/
import MiningPool.Proofs.Claim.Binding
import MiningPool.Proofs.Merkle.Authentication

/-!
A node at some height stands above a block of leaves whose length is a power of two, unless the leaves end
earlier. Its range begins with the least and ends with the greatest counter of the block. Nothing is asked
of the order of the leaves: a node that is combined with itself keeps its range, and in all other cases
the two blocks below a node make up the block of the node.
-/

namespace MiningPool

/-! ### Blocks of leaves -/

namespace Merkle

variable {ε ν : Type} [TreeNode ε ν]

/-- The elements below a node of the plain tree. -/
def block (elements : List ε) (height place : Nat) : List ε :=
  (elements.drop (2 ^ height * place)).take (2 ^ height)

theorem block_zero {elements : List ε} {place : Nat} {element : ε}
    (here : elements[place]? = some element) : block elements 0 place = [element] := by
  obtain ⟨inside, rfl⟩ := List.getElem?_eq_some_iff.1 here
  rw [block, Nat.pow_zero, Nat.one_mul, List.drop_eq_getElem_cons inside]
  rfl

/-- The blocks of two neighbours are the block of their parent. -/
theorem block_succ (elements : List ε) (height place : Nat) :
    block elements (height + 1) place =
      block elements height (2 * place) ++ block elements height (2 * place + 1) := by
  have start : 2 ^ (height + 1) * place = 2 ^ height * (2 * place) := by
    rw [Nat.pow_succ, Nat.mul_assoc]
  have width : 2 ^ (height + 1) = 2 ^ height + 2 ^ height := by
    rw [Nat.pow_succ, Nat.mul_two]
  rw [block, start, width, List.take_add, List.drop_drop, ← Nat.mul_succ]
  rfl

/-- Behind the last node of a level there are no more leaves. -/
theorem block_eq_nil {elements : List ε} {height place : Nat}
    (beyond : (level (leaves elements : List ν) height)[place]? = none) :
    block elements height place = [] := by
  have few := (length_level_le_iff (leaves elements : List ν) height place).1
    (List.getElem?_eq_none_iff.1 beyond)
  rw [length_leaves, Nat.mul_comm] at few
  rw [block, List.drop_eq_nil_of_le few, List.take_nil]

/-- The block at the top holds all leaves. -/
theorem block_top (elements : List ε) : block elements (Nat.clog 2 elements.length) 0 = elements := by
  rw [block, Nat.mul_zero, List.drop_zero]
  exact List.take_of_length_le (Nat.le_pow_clog Nat.one_lt_two _)

/-- A leaf is in the block that its position leads to. -/
theorem mem_block {elements : List ε} {position : Nat} {element : ε}
    (here : elements[position]? = some element) (height : Nat) :
    element ∈ block elements height (position / 2 ^ height) := by
  have inside : position % 2 ^ height < 2 ^ height := Nat.mod_lt _ (Nat.two_pow_pos _)
  apply List.mem_of_getElem? (i := position % 2 ^ height)
  rw [block, List.getElem?_take_of_lt inside, List.getElem?_drop, Nat.div_add_mod]
  exact here

end Merkle

/-! ### Ranges -/

namespace RangeNode

open Merkle

/-- The range of the node is from the least to the greatest counter of the shares. -/
structure Spans (node : RangeNode) (shares : List Share) : Prop where
  min : (shares.map Share.counter).min? = some node.min
  max : (shares.map Share.counter).max? = some node.max

theorem spans_singleton (share : Share) : (ofShare share).Spans [share] := ⟨rfl, rfl⟩

namespace Spans

variable {node left right : RangeNode} {shares earlier later : List Share}

theorem mem_range (spans : node.Spans shares) {share : Share} (member : share ∈ shares) :
    node.min ≤ share.counter ∧ share.counter ≤ node.max := by
  have counter := List.mem_map_of_mem (f := Share.counter) member
  exact ⟨(List.min?_eq_some_iff.1 spans.min).2 _ counter,
    (List.max?_eq_some_iff.1 spans.max).2 _ counter⟩

theorem join (first : left.Spans earlier) (second : right.Spans later) :
    (RangeNode.join left right).Spans (earlier ++ later) where
  min := by
    obtain ⟨firstMember, firstLeast⟩ := List.min?_eq_some_iff.1 first.min
    obtain ⟨secondMember, secondLeast⟩ := List.min?_eq_some_iff.1 second.min
    rw [List.map_append, List.min?_eq_some_iff]
    constructor
    · rcases Nat.le_total left.min right.min with below | above
      · have least : (RangeNode.join left right).min = left.min := Nat.min_eq_left below
        exact List.mem_append_left _ (least ▸ firstMember)
      · have least : (RangeNode.join left right).min = right.min := Nat.min_eq_right above
        exact List.mem_append_right _ (least ▸ secondMember)
    · intro counter member
      rcases List.mem_append.1 member with among | among
      · exact (Nat.min_le_left _ _).trans (firstLeast counter among)
      · exact (Nat.min_le_right _ _).trans (secondLeast counter among)
  max := by
    obtain ⟨firstMember, firstGreatest⟩ := List.max?_eq_some_iff.1 first.max
    obtain ⟨secondMember, secondGreatest⟩ := List.max?_eq_some_iff.1 second.max
    rw [List.map_append, List.max?_eq_some_iff]
    constructor
    · rcases Nat.le_total left.max right.max with below | above
      · have greatest : (RangeNode.join left right).max = right.max := Nat.max_eq_right below
        exact List.mem_append_right _ (greatest ▸ secondMember)
      · have greatest : (RangeNode.join left right).max = left.max := Nat.max_eq_left above
        exact List.mem_append_left _ (greatest ▸ firstMember)
    · intro counter member
      rcases List.mem_append.1 member with among | among
      · exact (firstGreatest counter among).trans (Nat.le_max_left _ _)
      · exact (secondGreatest counter among).trans (Nat.le_max_right _ _)

/-- Combined with itself, a node keeps its range. -/
theorem join_self (spans : node.Spans shares) : (RangeNode.join node node).Spans shares where
  min := by rw [spans.min]; exact congrArg some (Nat.min_self node.min).symm
  max := by rw [spans.max]; exact congrArg some (Nat.max_self node.max).symm

end Spans

/-- On every level a node has the range of the block below it. -/
theorem spans_of_level {shares : List Share} {height place : Nat} {node : RangeNode}
    (here : (level (leaves shares) height)[place]? = some node) :
    node.Spans (block shares height place) := by
  induction height generalizing place node with
  | zero =>
      rw [level_zero, leaves, List.getElem?_map, Option.map_eq_some_iff] at here
      obtain ⟨share, found, rfl⟩ := here
      rw [block_zero found]
      exact spans_singleton share
  | succ height ih =>
      rw [level_succ, getElem?_pairUp, Option.map_eq_some_iff] at here
      obtain ⟨left, found, rfl⟩ := here
      rw [block_succ]
      cases next : (level (leaves shares : List RangeNode) height)[2 * place + 1]? with
      | none =>
          rw [block_eq_nil next, List.append_nil]
          exact (ih found).join_self
      | some right => exact (ih found).join (ih next)

end RangeNode

namespace ShareTree

open Merkle

/-- What the ranges beside and on the way of a branch enclose. Beside the path stands the neighbouring block,
or the block of the path itself where there is no neighbour; on the way up the counter of the share is
always within the range. -/
structure Enclosed (shares : List Share) (position : Nat) (branch : Branch Share RangeNode) : Prop where
  sibling : ∀ (height : Nat) (sibling : Sibling RangeNode), branch.siblings[height]? = some sibling →
    sibling.node.Spans (block shares height
      (if 2 ^ height * ((position >>> height) ^^^ 1) < shares.length then (position >>> height) ^^^ 1
        else position >>> height))
  reached : ∀ height ≤ branch.depth,
    ((branch.siblings.take height).foldl Branch.climb branch.leaf).min ≤ branch.element.counter ∧
      branch.element.counter ≤ ((branch.siblings.take height).foldl Branch.climb branch.leaf).max

variable {shares : List Share} {position : Nat}

/-- A place of a level is taken if the leaves reach that far. -/
theorem lt_length_level_iff (height place : Nat) :
    place < (level (leaves shares : List RangeNode) height).length ↔
      2 ^ height * place < shares.length := by
  have none := length_level_le_iff (leaves shares : List RangeNode) height place
  rw [length_leaves, Nat.mul_comm] at none
  rw [← Nat.not_le, none, Nat.not_le]

theorem enclosed_of_isBranch {height : Nat} {branch : Branch Share RangeNode}
    (isBranch : IsBranch shares height position branch) : Enclosed shares position branch where
  sibling := by
    intro lower sibling found
    have stands := (isBranch.path.of_getElem?_siblings found).2
    rw [beside_eq, ← Nat.shiftRight_eq_div_pow] at stands
    split at stands
    · rename_i neighbour
      rw [if_pos ((lt_length_level_iff lower _).1 neighbour)]
      exact RangeNode.spans_of_level stands
    · rename_i alone
      rw [if_neg (mt (lt_length_level_iff lower _).2 alone)]
      exact RangeNode.spans_of_level stands
  reached := by
    intro lower inside
    have depth : branch.depth = height := isBranch.path.length_siblings
    rw [depth] at inside
    obtain ⟨start, isStart, siblings⟩ := isBranch.path.exists_take inside
    have bottom : start.bottom = branch.leaf := by
      have same := isStart.getElem?_bottom
      rw [isBranch.path.getElem?_bottom, Option.some.injEq] at same
      exact same.symm
    have spans := RangeNode.spans_of_level (isStart.getElem?_computeRoot branch.element)
    rw [Branch.computeRoot, Branch.siblings, Branch.leaf, siblings, bottom] at spans
    exact spans.mem_range (mem_block isBranch.element lower)

/-- For every list of shares but the empty one, in any order and whatever is registered in between, the range
of the root is that of all shares, and the branch of every position that was registered before its share
came in has true ranges beside and on its way. -/
theorem enclosed_of_calls {calls : List (TreeCall Share)} (nonempty : 0 < shares.length)
    (inOrder : insertions calls = shares.zipIdx) :
    ∃ (builder : ShareTreeBuilder) (tree : ShareTree), TreeBuilder.empty.run calls = .ok builder ∧
      builder.close = .ok tree ∧ tree.root.Spans shares ∧
      ∀ position, InTime calls position → ∃ branch, tree.branch position = .ok branch ∧
        shares[position]? = some branch.element ∧ branch.depth = tree.depth ∧
        Enclosed shares position branch := by
  obtain ⟨builder, tree, taken, closed, registered, complete⟩ :=
    exists_complete_of_calls (ν := RangeNode) nonempty inOrder
  refine ⟨builder, tree, taken, closed, ?_, ?_⟩
  · have top : (level (leaves shares) (Nat.clog 2 shares.length))[0]? = some tree.root := by
      rw [complete.root]
      rfl
    rw [← block_top shares]
    exact RangeNode.spans_of_level top
  · intro position inTime
    have registration : position ∈ tree.registered := by
      rw [registered]
      exact inTime.mem_registrations
    obtain ⟨branch, found, isBranch⟩ :=
      complete.branch (inTime.lt_length inOrder) inTime registration
    exact ⟨branch, found, isBranch.element, isBranch.path.length_siblings.trans complete.depth.symm,
      enclosed_of_isBranch isBranch⟩

/-- Three shares whose counters go up and down. -/
def unsortedShares : List Share :=
  [.unclassified Claim.zeroHeader 1 7 (.zero 32), .unclassified Claim.zeroHeader 1 9 (.zero 32),
    .unclassified Claim.zeroHeader 1 2 (.zero 32)]

def unsortedCalls : List (TreeCall Share) :=
  [.register [2], .insert (.unclassified Claim.zeroHeader 1 7 (.zero 32)) 0,
    .insert (.unclassified Claim.zeroHeader 1 9 (.zero 32)) 1,
    .insert (.unclassified Claim.zeroHeader 1 2 (.zero 32)) 2]

/-- The last of three shares is its own sibling first and then stands beside the other two. -/
theorem enclosed_of_unsorted_calls :
    0 < unsortedShares.length ∧ insertions unsortedCalls = unsortedShares.zipIdx ∧
      InTime unsortedCalls 2 ∧
      ∃ (builder : ShareTreeBuilder) (tree : ShareTree),
        TreeBuilder.empty.run unsortedCalls = .ok builder ∧ builder.close = .ok tree ∧
        tree.root.Spans unsortedShares ∧
        ∃ branch, tree.branch 2 = .ok branch ∧ unsortedShares[2]? = some branch.element ∧
          branch.depth = tree.depth ∧ Enclosed unsortedShares 2 branch := by
  have inOrder : insertions unsortedCalls = unsortedShares.zipIdx := rfl
  have inTime : InTime unsortedCalls 2 := ⟨unsortedCalls.take 3, _, [], rfl, by decide⟩
  obtain ⟨builder, tree, taken, closed, range, enclosed⟩ := enclosed_of_calls (by decide) inOrder
  exact ⟨by decide, inOrder, inTime, builder, tree, taken, closed, range, enclosed 2 inTime⟩

end ShareTree

end MiningPool
