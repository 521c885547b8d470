/-
Module: MiningPool.Proofs.Share.RangeOrder
Purpose: ranges of counters in a tree whose leaves stand in the order of their counters.
Main exports: RangeNode.Ordered, RangeNode.Bounded, RangeNode.ordered_level
-/
import MiningPool.Proofs.Merkle.Builder
import MiningPool.Share.Tree

/-!
In counter order the ranges of a level do not overlap: each ends where the next one begins or before.
The least counter of a parent is then that of its earlier child and the greatest that of its later child,
which are the two counters that its hash takes in.
-/

namespace MiningPool.RangeNode

open Merkle

/-- Ranges that follow one another. -/
structure Ordered (nodes : List RangeNode) : Prop where
  range : ∀ node ∈ nodes, node.min ≤ node.max
  following : nodes.Pairwise fun earlier later => earlier.max ≤ later.min

/-- Ranges of counters that fit into 32 bytes. -/
def Bounded (nodes : List RangeNode) : Prop :=
  ∀ node ∈ nodes, node.min < 256 ^ (32 : Nat) ∧ node.max < 256 ^ (32 : Nat)

/-! ### One level up -/

theorem exists_join_of_mem_pairUp {nodes : List RangeNode} {node : RangeNode}
    (member : node ∈ pairUp nodes) :
    ∃ left ∈ nodes, ∃ right ∈ nodes, node = join left right := by
  fun_induction pairUp nodes with
  | case1 => simp at member
  | case2 last => exact ⟨last, by simp, last, by simp, List.mem_singleton.1 member⟩
  | case3 left right rest ih =>
      rcases List.mem_cons.1 member with same | later
      · exact ⟨left, by simp, right, by simp, same⟩
      · obtain ⟨first, firstMember, second, secondMember, same⟩ := ih later
        exact ⟨first, by simp [firstMember], second, by simp [secondMember], same⟩

theorem Ordered.pairUp {nodes : List RangeNode} (ordered : Ordered nodes) :
    Ordered (pairUp nodes) where
  range := by
    intro node member
    obtain ⟨left, leftMember, right, rightMember, rfl⟩ := exists_join_of_mem_pairUp member
    exact (Nat.min_le_left _ _).trans
      ((ordered.range left leftMember).trans (Nat.le_max_left _ _))
  following := by
    have following := ordered.following
    fun_induction Merkle.pairUp nodes with
    | case1 => exact .nil
    | case2 last => exact List.pairwise_singleton _ _
    | case3 left right rest ih =>
        obtain ⟨leftBefore, rightBefore, restFollowing⟩ := by
          simpa only [List.pairwise_cons] using following
        refine List.pairwise_cons.2 ⟨?_, ih ⟨?_, restFollowing⟩ restFollowing⟩
        · intro later member
          obtain ⟨first, firstMember, second, secondMember, rfl⟩ := exists_join_of_mem_pairUp member
          exact Nat.max_le.2
            ⟨Nat.le_min.2 ⟨leftBefore _ (by simp [firstMember]), leftBefore _ (by simp [secondMember])⟩,
              Nat.le_min.2 ⟨rightBefore _ firstMember, rightBefore _ secondMember⟩⟩
        · intro node member
          exact ordered.range node (by simp [member])

theorem Bounded.pairUp {nodes : List RangeNode} (bounded : Bounded nodes) :
    Bounded (pairUp nodes) := by
  intro node member
  obtain ⟨left, leftMember, right, rightMember, rfl⟩ := exists_join_of_mem_pairUp member
  obtain ⟨leftMin, leftMax⟩ := bounded left leftMember
  obtain ⟨rightMin, rightMax⟩ := bounded right rightMember
  exact ⟨(Nat.min_le_left _ _).trans_lt leftMin, Nat.max_lt.2 ⟨leftMax, rightMax⟩⟩

/-! ### All levels -/

theorem Ordered.level {nodes : List RangeNode} (ordered : Ordered nodes) (height : Nat) :
    Ordered (level nodes height) := by
  induction height with
  | zero => exact ordered
  | succ height ih => exact ih.pairUp

theorem Bounded.level {nodes : List RangeNode} (bounded : Bounded nodes) (height : Nat) :
    Bounded (level nodes height) := by
  induction height with
  | zero => exact bounded
  | succ height ih => exact ih.pairUp

/-! ### A node and the one beside it -/

theorem mem_of_beside {nodes : List RangeNode} {place : Nat} {sibling : RangeNode}
    (neighbour : beside nodes place = some sibling) : sibling ∈ nodes := by
  unfold beside at neighbour
  split at neighbour
  · exact List.mem_of_getElem? neighbour
  · obtain ⟨own, here, same⟩ := Option.map_eq_some_iff.1 neighbour
    cases next : nodes[place + 1]? with
    | none => exact same ▸ by simpa [next] using List.mem_of_getElem? here
    | some other => exact same ▸ by simpa [next] using List.mem_of_getElem? next

theorem Ordered.max_le_min {nodes : List RangeNode} (ordered : Ordered nodes) {place : Nat}
    {earlier later : RangeNode} (here : nodes[place]? = some earlier)
    (next : nodes[place + 1]? = some later) : earlier.max ≤ later.min := by
  obtain ⟨inside, rfl⟩ := List.getElem?_eq_some_iff.1 here
  obtain ⟨insideNext, rfl⟩ := List.getElem?_eq_some_iff.1 next
  exact List.pairwise_iff_getElem.1 ordered.following place (place + 1) inside insideNext (by omega)

/-- Beside an odd place stands the earlier range of the pair. -/
theorem Ordered.join_of_odd {nodes : List RangeNode} (ordered : Ordered nodes) {place : Nat}
    {own sibling : RangeNode} (odd : place % 2 = 1) (here : nodes[place]? = some own)
    (neighbour : beside nodes place = some sibling) :
    join sibling own = ⟨sibling.min, own.max, truncatedKeccak (hashInput sibling own)⟩ := by
  have previous : nodes[place - 1]? = some sibling := by simpa [beside, odd] using neighbour
  have position : place - 1 + 1 = place := by omega
  have before := ordered.max_le_min previous (by rw [position, here])
  have siblingRange := ordered.range sibling (List.mem_of_getElem? previous)
  have ownRange := ordered.range own (List.mem_of_getElem? here)
  have least : Nat.min sibling.min own.min = sibling.min := Nat.min_eq_left (by omega)
  have greatest : Nat.max sibling.max own.max = own.max := Nat.max_eq_right (by omega)
  rw [join, least, greatest]

/-- Beside an even place stands the later range of the pair, or the range itself. -/
theorem Ordered.join_of_even {nodes : List RangeNode} (ordered : Ordered nodes) {place : Nat}
    {own sibling : RangeNode} (even : place % 2 = 0) (here : nodes[place]? = some own)
    (neighbour : beside nodes place = some sibling) :
    join own sibling = ⟨own.min, sibling.max, truncatedKeccak (hashInput own sibling)⟩ := by
  have ownRange := ordered.range own (List.mem_of_getElem? here)
  have siblingRange := ordered.range sibling (mem_of_beside neighbour)
  have follows : own.min ≤ sibling.min ∧ own.max ≤ sibling.max := by
    cases next : nodes[place + 1]? with
    | none =>
        have same : own = sibling := by simpa [beside, even, here, next] using neighbour
        simp [same]
    | some other =>
        have same : other = sibling := by simpa [beside, even, here, next] using neighbour
        have before := ordered.max_le_min here (same ▸ next)
        omega
  have least : Nat.min own.min sibling.min = own.min := Nat.min_eq_left follows.1
  have greatest : Nat.max own.max sibling.max = sibling.max := Nat.max_eq_right follows.2
  rw [join, least, greatest]

end MiningPool.RangeNode
