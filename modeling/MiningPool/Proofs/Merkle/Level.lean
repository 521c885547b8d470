/-
Module: MiningPool.Proofs.Merkle.Level
Purpose: the tree over a list of nodes, one level at a time.
Main exports: Merkle.pairUp, Merkle.level, Merkle.beside, Merkle.length_level_le_iff,
  Merkle.AuthPath, Merkle.testBit_of_mod
-/
import Mathlib.Data.Nat.Log
import MiningPool.Merkle.Branch
import MiningPool.Number.Power

/-!
The plain tree needs all nodes at hand. A level is made of the one below it by combining neighbours in
order; the last node of an odd level is combined with itself. The tree that takes its leaves one at a
time is compared with this one.
-/

namespace MiningPool.Merkle

variable {ε ν : Type} [TreeNode ε ν]

/-- The level above a level. -/
def pairUp : List ν → List ν
  | [] => []
  | [last] => [TreeNode.combine last last]
  | left :: right :: rest => TreeNode.combine left right :: pairUp rest

/-- The nodes at a height above the given ones. -/
def level (nodes : List ν) : Nat → List ν
  | 0 => nodes
  | height + 1 => pairUp (level nodes height)

/-- The node that the node at a place is combined with: its neighbour, or itself where a level ends
with it. -/
def beside (nodes : List ν) (place : Nat) : Option ν :=
  if place % 2 = 1 then nodes[place - 1]?
  else nodes[place]?.map fun own => nodes[place + 1]?.getD own

/-- A path from a position, each of whose siblings stands beside the path in the plain tree. -/
inductive AuthPath (nodes : List ν) (position : Nat) : Nat → Path ν → Prop where
  | leaf {node : ν} (bottom : nodes[position]? = some node) :
      AuthPath nodes position 0 (.leaf node)
  | afterNode {height : Nat} {sibling : ν} {below : Path ν}
      (lower : AuthPath nodes position height below)
      (odd : position / 2 ^ height % 2 = 1)
      (neighbour : beside (level nodes height) (position / 2 ^ height) = some sibling) :
      AuthPath nodes position (height + 1) (.afterNode sibling below)
  | beforeNode {height : Nat} {sibling : ν} {below : Path ν}
      (lower : AuthPath nodes position height below)
      (even : position / 2 ^ height % 2 = 0)
      (neighbour : beside (level nodes height) (position / 2 ^ height) = some sibling) :
      AuthPath nodes position (height + 1) (.beforeNode below sibling)

/-! ### One level -/

theorem length_pairUp (nodes : List ν) : (pairUp nodes).length = (nodes.length + 1) / 2 := by
  fun_induction pairUp nodes with
  | case1 => simp
  | case2 last => simp
  | case3 left right rest ih =>
      simp only [List.length_cons, ih]
      omega

/-- A parent combines the two nodes below it, or one node with itself. -/
theorem getElem?_pairUp (nodes : List ν) (place : Nat) :
    (pairUp nodes)[place]? =
      nodes[2 * place]?.map fun left =>
        TreeNode.combine left (nodes[2 * place + 1]?.getD left) := by
  fun_induction pairUp nodes generalizing place with
  | case1 => simp
  | case2 last =>
      cases place with
      | zero => simp
      | succ place => simp [Nat.mul_add]
  | case3 left right rest ih =>
      cases place with
      | zero => simp
      | succ place =>
          have next : 2 * (place + 1) = 2 * place + 1 + 1 := by omega
          simp only [next, List.getElem?_cons_succ, ih]

/-- The parent of a node and the node beside it, in the order in which they stand. -/
theorem getElem?_pairUp_beside {nodes : List ν} {place : Nat} {own sibling : ν}
    (here : nodes[place]? = some own) (neighbour : beside nodes place = some sibling) :
    (pairUp nodes)[place / 2]? =
      some (if place % 2 = 1 then TreeNode.combine sibling own
        else TreeNode.combine own sibling) := by
  rw [getElem?_pairUp]
  unfold beside at neighbour
  split at neighbour
  · rename_i odd
    have left : 2 * (place / 2) = place - 1 := by omega
    have right : place - 1 + 1 = place := by omega
    simp [left, right, neighbour, here, odd]
  · rename_i even
    have left : 2 * (place / 2) = place := by omega
    simp only [here, Option.map_some, Option.some.injEq] at neighbour
    simp [left, here, neighbour, even]

/-! ### Sizes of levels -/

@[simp] theorem level_zero (nodes : List ν) : level nodes 0 = nodes := rfl

theorem level_succ (nodes : List ν) (height : Nat) :
    level nodes (height + 1) = pairUp (level nodes height) := rfl

/-- A level has at most so many nodes exactly if the leaves fit under them. -/
theorem length_level_le_iff (nodes : List ν) (height count : Nat) :
    (level nodes height).length ≤ count ↔ nodes.length ≤ count * 2 ^ height := by
  induction height generalizing count with
  | zero => simp
  | succ height ih =>
      have halves : ((level nodes height).length + 1) / 2 ≤ count ↔
          (level nodes height).length ≤ 2 * count := by omega
      rw [level_succ, length_pairUp, halves, ih, Nat.pow_succ, Nat.mul_comm 2 count,
        Nat.mul_assoc, Nat.mul_comm 2]

theorem length_level_pos {nodes : List ν} (nonempty : 0 < nodes.length) (height : Nat) :
    0 < (level nodes height).length := by
  rw [Nat.pos_iff_ne_zero]
  intro none
  have fits := (length_level_le_iff nodes height 0).1 (by omega)
  omega

theorem length_level_congr {left right : List ν} (count : left.length = right.length)
    (height : Nat) : (level left height).length = (level right height).length := by
  induction height with
  | zero => exact count
  | succ height ih => rw [level_succ, level_succ, length_pairUp, length_pairUp, ih]

/-- A level that still halves evenly several times. -/
theorem length_level_add {nodes : List ν} {height count more : Nat}
    (even : (level nodes height).length = count * 2 ^ more) :
    (level nodes (height + more)).length = count := by
  induction more generalizing count with
  | zero => simpa using even
  | succ more ih =>
      have lower : (level nodes (height + more)).length = count * 2 :=
        ih (by rw [even, Nat.pow_succ, Nat.mul_assoc, Nat.mul_comm 2])
      rw [← Nat.add_assoc, level_succ, length_pairUp, lower]
      omega

/-- At the top of a tree, every position has become the first one. -/
theorem div_pow_clog {index count : Nat} (inside : index < count) :
    index / 2 ^ Nat.clog 2 count = 0 :=
  Nat.div_eq_of_lt (Nat.lt_of_lt_of_le inside (Nat.le_pow_clog Nat.one_lt_two _))

/-- At the binary logarithm of the number of nodes, rounded up, a single node is left. -/
theorem length_level_clog_le_one (nodes : List ν) :
    (level nodes (Nat.clog 2 nodes.length)).length ≤ 1 := by
  rw [length_level_le_iff, Nat.one_mul]
  exact Nat.le_pow_clog Nat.one_lt_two _

/-- A height is not above that one if all levels below it have more than one node. -/
theorem le_clog_of_below {nodes : List ν} {height : Nat}
    (below : ∀ lower < height, 1 < (level nodes lower).length) : height ≤ Nat.clog 2 nodes.length := by
  by_contra higher
  have several := below _ (Nat.lt_of_not_le higher)
  exact absurd (length_level_clog_le_one nodes) (Nat.not_le.2 several)

/-- The first height with a single node is the binary logarithm of the number of leaves, rounded up. -/
theorem height_eq_clog {nodes : List ν} {height : Nat}
    (single : (level nodes height).length ≤ 1)
    (below : ∀ lower < height, 1 < (level nodes lower).length) :
    height = Nat.clog 2 nodes.length := by
  apply Nat.le_antisymm
  · exact le_clog_of_below below
  · apply Nat.clog_le_of_le_pow
    simpa using (length_level_le_iff nodes height 1).1 single

/-! ### Paths -/

theorem AuthPath.length_siblings {nodes : List ν} {position height : Nat} {path : Path ν}
    (authPath : AuthPath nodes position height path) : path.siblings.length = height := by
  induction authPath with
  | leaf bottom => rfl
  | afterNode lower odd neighbour ih => simp [Path.siblings, ih]
  | beforeNode lower even neighbour ih => simp [Path.siblings, ih]

/-! ### Binary digits of a position -/

/-- On a level where the path is a later child, the position has a one. -/
theorem testBit_of_mod {position height : Nat} (odd : position / 2 ^ height % 2 = 1) :
    position.testBit height = true := by
  rw [Nat.testBit_eq_decide_div_mod_eq, odd]
  rfl

theorem testBit_of_mod_zero {position height : Nat} (even : position / 2 ^ height % 2 = 0) :
    position.testBit height = false := by
  rw [Nat.testBit_eq_decide_div_mod_eq, even]
  rfl

end MiningPool.Merkle
