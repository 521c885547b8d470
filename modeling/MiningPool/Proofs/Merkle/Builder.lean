/-
Module: MiningPool.Proofs.Merkle.Builder
Purpose: the tree that takes its leaves one at a time is the plain tree.
Main exports: Merkle.Covers, Merkle.Stacked, Merkle.Complete, Merkle.insert_stacked,
  Merkle.close_stacked
-/
import Mathlib.Tactic.Ring
import MiningPool.Merkle.Tree
import MiningPool.Proofs.Merkle.Level

/-!
Every subtree of the builder stands for one node of the plain tree over all elements, those included that
have not arrived yet. The stack holds the subtrees for the binary digits of the number of leaves. Closing
goes from one level of the plain tree to a higher one in every round: the copy of the topmost subtree
stands where the plain tree combines the last node of an odd level with itself.
-/

namespace MiningPool.Merkle

variable {ε ν : Type} [TreeNode ε ν]

/-- The nodes of elements. -/
def leaves (elements : List ε) : List ν := elements.map TreeNode.leaf

@[simp] theorem length_leaves (elements : List ε) :
    (leaves elements : List ν).length = elements.length := by
  simp [leaves]

/-- A branch that leads from a position up to a height. -/
structure IsBranch (elements : List ε) (height position : Nat) (branch : Branch ε ν) : Prop where
  element : elements[position]? = some branch.element
  path : AuthPath (leaves elements) position height branch.path

/-- Branches of exactly those positions below a node that are kept. -/
structure Keeps (elements : List ε) (kept : Nat → Prop) (height place : Nat)
    (branches : List (Nat × Branch ε ν)) : Prop where
  sound : ∀ position branch, (position, branch) ∈ branches →
    position / 2 ^ height = place ∧ kept position ∧ IsBranch elements height position branch
  complete : ∀ position, position / 2 ^ height = place → kept position →
    ∃ branch, (position, branch) ∈ branches

/-- A subtree that stands for the node at a height and place. -/
structure Covers (elements : List ε) (kept : Nat → Prop) (height place : Nat)
    (pending : Pending ε ν) : Prop where
  size : pending.leaves = 2 ^ height
  node : (level (leaves elements) height)[place]? = some pending.node
  branches : Keeps elements kept height place pending.branches

/-- Subtrees that stand for the binary digits of a number of leaves, the last digit first. -/
def Stacked (elements : List ε) (kept : Nat → Prop) : Nat → List (Pending ε ν) → Prop
  | total, [] => total = 0
  | total, pending :: rest =>
    ∃ height half, total = (2 * half + 1) * 2 ^ height ∧
      Covers elements kept height (2 * half) pending ∧
      Stacked elements kept (2 * half * 2 ^ height) rest

/-- A finished tree over all elements. -/
structure Complete (elements : List ε) (kept : Nat → Prop) (tree : Tree ε ν) : Prop where
  root : level (leaves elements) (Nat.clog 2 elements.length) = [tree.root]
  depth : tree.depth = Nat.clog 2 elements.length
  leafCount : tree.leafCount = elements.length
  branches : Keeps elements kept (Nat.clog 2 elements.length) 0 tree.branches

variable {elements : List ε} {kept : Nat → Prop}

/-! ### Two subtrees become one -/

theorem AuthPath.acceptRight {nodes : List ν} {position height half : Nat} {path : Path ν}
    {own next : ν} (lower : AuthPath nodes position height path)
    (place : position / 2 ^ height = 2 * half)
    (here : (level nodes height)[2 * half]? = some own)
    (there : (level nodes height)[2 * half + 1]?.getD own = next) :
    AuthPath nodes position (height + 1) (.beforeNode path next) := by
  refine .beforeNode lower (by omega) ?_
  simp [beside, place, here, there]

theorem AuthPath.acceptLeft {nodes : List ν} {position height half : Nat} {path : Path ν}
    {previous : ν} (lower : AuthPath nodes position height path)
    (place : position / 2 ^ height = 2 * half + 1)
    (there : (level nodes height)[2 * half]? = some previous) :
    AuthPath nodes position (height + 1) (.afterNode previous path) := by
  refine .afterNode lower (by omega) ?_
  simp [beside, place, there, Nat.add_mod]

/-- Going up one level halves the place. -/
theorem div_pow_succ (position height : Nat) :
    position / 2 ^ (height + 1) = position / 2 ^ height / 2 := by
  rw [Nat.pow_succ, Nat.div_div_eq_div_mul]

theorem Keeps.merge {left right : Pending ε ν} {height half : Nat}
    (first : Covers elements kept height (2 * half) left)
    (node : (level (leaves elements) height)[2 * half + 1]?.getD left.node = right.node)
    (second : Keeps elements kept height (2 * half + 1) right.branches) :
    Keeps elements kept (height + 1) half (left.merge right).branches where
  sound := by
    intro position branch member
    simp only [Pending.merge, List.mem_append, List.mem_map, Prod.exists, Prod.mk.injEq] at member
    rcases member with ⟨_, lower, member, rfl, rfl⟩ | ⟨_, lower, member, rfl, rfl⟩
    · obtain ⟨place, isKept, isBranch⟩ := first.branches.sound _ _ member
      refine ⟨by rw [div_pow_succ]; omega, isKept, isBranch.element, ?_⟩
      exact isBranch.path.acceptRight place first.node node
    · obtain ⟨place, isKept, isBranch⟩ := second.sound _ _ member
      refine ⟨by rw [div_pow_succ]; omega, isKept, isBranch.element, ?_⟩
      exact isBranch.path.acceptLeft place first.node
  complete := by
    intro position place isKept
    rw [div_pow_succ] at place
    have sides : position / 2 ^ height = 2 * half ∨ position / 2 ^ height = 2 * half + 1 := by omega
    rcases sides with place | place
    · obtain ⟨branch, member⟩ := first.branches.complete position place isKept
      exact ⟨branch.acceptRight right.node, List.mem_append_left _ (List.mem_map.2 ⟨_, member, rfl⟩)⟩
    · obtain ⟨branch, member⟩ := second.complete position place isKept
      exact ⟨branch.acceptLeft left.node, List.mem_append_right _ (List.mem_map.2 ⟨_, member, rfl⟩)⟩

theorem Covers.merge {left right : Pending ε ν} {height half : Nat}
    (first : Covers elements kept height (2 * half) left)
    (size : right.leaves = 2 ^ height)
    (node : (level (leaves elements) height)[2 * half + 1]?.getD left.node = right.node)
    (second : Keeps elements kept height (2 * half + 1) right.branches) :
    Covers elements kept (height + 1) half (left.merge right) where
  size := by
    simp only [Pending.merge, first.size, size, Nat.pow_succ]
    omega
  node := by
    rw [level_succ, getElem?_pairUp, first.node]
    simp [Pending.merge, node]
  branches := Keeps.merge first node second

/-! ### The stack as a binary number -/

/-- The odd part of a number takes the highest power of two out of it. -/
theorem le_of_mul_pow_eq {count height half other : Nat}
    (total : count * 2 ^ height = (2 * half + 1) * 2 ^ other) : height ≤ other := by
  by_contra higher
  obtain ⟨more, rfl⟩ := Nat.exists_eq_add_of_lt (Nat.lt_of_not_le higher)
  have same : 2 * (count * 2 ^ more) = 2 * half + 1 := by
    apply Nat.eq_of_mul_eq_mul_right (Nat.two_pow_pos other)
    rw [← total, Nat.pow_succ, Nat.pow_add]
    ring
  omega

/-- What a level has to be if the subtrees on it make up an odd number of larger ones. -/
theorem eq_mul_pow_of_mul_pow_eq {count height half other : Nat}
    (total : count * 2 ^ height = (2 * half + 1) * 2 ^ other) :
    count = (2 * half + 1) * 2 ^ (other - height) := by
  apply Nat.eq_of_mul_eq_mul_right (Nat.two_pow_pos height)
  rw [total, Nat.mul_assoc, ← Nat.pow_add, Nat.sub_add_cancel (le_of_mul_pow_eq total)]

theorem Stacked.push {stack : List (Pending ε ν)} {pending : Pending ε ν} {height place : Nat}
    (stacked : Stacked elements kept (place * 2 ^ height) stack)
    (covers : Covers elements kept height place pending) :
    Stacked elements kept ((place + 1) * 2 ^ height) (Pending.push stack pending) := by
  induction stack generalizing pending height place with
  | nil =>
      have first : place = 0 := by
        simpa using Nat.mul_eq_zero.1 stacked
      subst first
      exact ⟨height, 0, by simp, by simpa using covers, by simp [Stacked]⟩
  | cons top rest ih =>
      obtain ⟨topHeight, half, total, topCovers, restStacked⟩ := stacked
      have odd := eq_mul_pow_of_mul_pow_eq total
      rw [Pending.push]
      by_cases same : height = topHeight
      · subst same
        have placed : place = 2 * half + 1 := by simpa using odd
        subst placed
        rw [if_pos (by rw [topCovers.size, covers.size])]
        have merged : Covers elements kept (height + 1) half (top.merge pending) :=
          topCovers.merge covers.size (by simp [covers.node]) covers.branches
        have lower : Stacked elements kept (half * 2 ^ (height + 1)) rest := by
          rwa [Nat.pow_succ, Nat.mul_comm _ 2, ← Nat.mul_assoc, Nat.mul_comm half 2]
        have pushed := ih lower merged
        rwa [Nat.pow_succ, Nat.mul_comm _ 2, ← Nat.mul_assoc, Nat.add_mul, Nat.one_mul,
          Nat.mul_comm half 2] at pushed
      · have above : height < topHeight :=
          Nat.lt_of_le_of_ne (le_of_mul_pow_eq total) same
        rw [if_neg (by
          rw [topCovers.size, covers.size]
          exact Nat.ne_of_gt (Nat.pow_lt_pow_right Nat.one_lt_two above))]
        obtain ⟨more, rfl⟩ := Nat.exists_eq_add_of_lt above
        have even : place = 2 * ((2 * half + 1) * 2 ^ more) := by
          rw [odd, Nat.add_assoc, Nat.add_sub_cancel_left, Nat.pow_succ]
          ring
        refine ⟨height, (2 * half + 1) * 2 ^ more, by rw [← even], ?_, ?_⟩
        · rwa [← even]
        · rw [← even]
          exact ⟨_, half, total, topCovers, restStacked⟩

/-! ### Taking in a leaf -/

/-- The branches that a new leaf starts with. -/
theorem Keeps.start {element : ε} {position : Nat} {registered : List Nat}
    (next : elements[position]? = some element)
    (registration : kept position ↔ position ∈ registered) :
    Keeps elements kept 0 position
      (if position ∈ registered then
        [(position, Branch.start element (TreeNode.leaf element : ν))] else []) where
  sound := by
    intro other branch member
    split at member
    · rename_i present
      simp only [List.mem_singleton, Prod.mk.injEq] at member
      rcases member with ⟨rfl, rfl⟩
      refine ⟨by simp, registration.2 present, next, .leaf ?_⟩
      simp [leaves, next]
    · simp at member
  complete := by
    intro other place isKept
    have same : other = position := by simpa using place
    subst same
    rw [if_pos (registration.1 isKept)]
    exact ⟨_, List.mem_singleton.2 rfl⟩

/-- The next leaf is always taken, and the stack then stands for one more leaf. -/
theorem insert_stacked {builder : TreeBuilder ε ν} {element : ε}
    (stacked : Stacked elements kept builder.inserted builder.stack)
    (next : elements[builder.inserted]? = some element)
    (registration : kept builder.inserted ↔ builder.inserted ∈ builder.registered) :
    ∃ larger, builder.insert element builder.inserted = (larger, .ok ()) ∧
      larger.inserted = builder.inserted + 1 ∧ larger.registered = builder.registered ∧
      Stacked elements kept larger.inserted larger.stack := by
  refine ⟨_, if_pos rfl, rfl, rfl, ?_⟩
  have covers : Covers elements kept 0 builder.inserted
      ⟨(TreeNode.leaf element : ν), 1, if builder.inserted ∈ builder.registered then
        [(builder.inserted, Branch.start element (TreeNode.leaf element))] else []⟩ :=
    ⟨rfl, by simp [leaves, next], Keeps.start next registration⟩
  have pushed := Stacked.push (by simpa using stacked) covers
  simpa using pushed

/-! ### Closing -/

/-- The level on which the topmost subtree stands has an odd number of nodes, and those below it have
an even one. -/
theorem length_level_below_top {nodes : List ν} {height half other lower : Nat}
    (total : (level nodes height).length * 2 ^ height = (2 * half + 1) * 2 ^ other)
    (least : height ≤ lower) (most : lower ≤ other) :
    (level nodes lower).length = (2 * half + 1) * 2 ^ (other - lower) := by
  obtain ⟨more, rfl⟩ := Nat.exists_eq_add_of_le least
  apply length_level_add
  rw [eq_mul_pow_of_mul_pow_eq total, Nat.mul_assoc, ← Nat.pow_add]
  congr 2
  omega

theorem Covers.copy {top : Pending ε ν} {height half : Nat}
    (covers : Covers elements kept height (2 * half) top)
    (last : (level (leaves elements : List ν) height).length = 2 * half + 1)
    (bounded : ∀ position, kept position → position < elements.length) :
    Covers elements kept (height + 1) half (top.merge top.duplicate) := by
  refine covers.merge covers.size ?_ ⟨?_, ?_⟩
  · simp [Pending.duplicate, last]
  · simp [Pending.duplicate]
  · intro position place isKept
    -- A position below the copy would lie behind the last leaf.
    have inside := bounded position isKept
    have fits := (length_level_le_iff (leaves elements : List ν) height (2 * half + 1)).1 (by omega)
    rw [length_leaves] at fits
    have few : position / 2 ^ height < 2 * half + 1 :=
      Nat.div_lt_of_lt_mul (by rw [Nat.mul_comm]; omega)
    omega

theorem not_stacked_nil {height : Nat} (nonempty : 0 < elements.length) :
    ¬ Stacked elements kept ((level (leaves elements : List ν) height).length * 2 ^ height)
      ([] : List (Pending ε ν)) := by
  intro none
  have some_ : 0 < (level (leaves elements : List ν) height).length :=
    length_level_pos (by simpa using nonempty) height
  have zero := Nat.mul_eq_zero.1 none
  have positive := Nat.two_pow_pos height
  omega

/-- A single subtree stands for the root. -/
theorem Stacked.last {last : Pending ε ν} {height : Nat}
    (stacked : Stacked elements kept
      ((level (leaves elements : List ν) height).length * 2 ^ height) [last])
    (below : ∀ lower < height, 1 < (level (leaves elements : List ν) lower).length) :
    Covers elements kept (Nat.clog 2 elements.length) 0 last := by
  obtain ⟨top, half, total, covers, base⟩ := stacked
  have none : half = 0 := by simpa [Stacked] using base
  subst none
  have single := length_level_below_top total (le_of_mul_pow_eq total) (Nat.le_refl top)
  have first : top = Nat.clog 2 elements.length := by
    rw [← length_leaves (ν := ν) elements]
    refine height_eq_clog (by simp [single]) fun lower lowerTop => ?_
    by_cases early : lower < height
    · exact below lower early
    · rw [length_level_below_top total (by omega) (Nat.le_of_lt lowerTop)]
      simpa using Nat.one_lt_two_pow (by omega)
  rw [← first]
  simpa using covers

/-- A round goes up to a level above that of the topmost subtree. -/
theorem Stacked.copy {top second : Pending ε ν} {rest : List (Pending ε ν)} {height : Nat}
    (bounded : ∀ position, kept position → position < elements.length)
    (stacked : Stacked elements kept
      ((level (leaves elements : List ν) height).length * 2 ^ height) (top :: second :: rest))
    (below : ∀ lower < height, 1 < (level (leaves elements : List ν) lower).length) :
    ∃ higher, height < higher ∧
      (∀ lower < higher, 1 < (level (leaves elements : List ν) lower).length) ∧
      Stacked elements kept ((level (leaves elements : List ν) higher).length * 2 ^ higher)
        (Pending.push (top :: second :: rest) top.duplicate) := by
  obtain ⟨base, half, total, covers, restStacked⟩ := stacked
  have positive : 0 < half := by
    obtain ⟨_, _, restTotal, _, _⟩ := restStacked
    by_contra zero
    have none : half = 0 := by omega
    simp [none] at restTotal
  have last := length_level_below_top total (le_of_mul_pow_eq total) (Nat.le_refl base)
  rw [Nat.sub_self, Nat.pow_zero, Nat.mul_one] at last
  have above : (level (leaves elements : List ν) (base + 1)).length = half + 1 := by
    rw [level_succ, length_pairUp, last]
    omega
  refine ⟨base + 1, Nat.lt_succ_of_le (le_of_mul_pow_eq total), fun lower lowerBase => ?_, ?_⟩
  · by_cases early : lower < height
    · exact below lower early
    · rw [length_level_below_top total (by omega) (by omega)]
      have several : 1 < 2 * half + 1 := by omega
      exact Nat.lt_of_lt_of_le several (Nat.le_mul_of_pos_right _ (Nat.two_pow_pos _))
  · have equal : top.leaves = top.duplicate.leaves := rfl
    rw [Pending.push, if_pos equal, above]
    have lower : Stacked elements kept (half * 2 ^ (base + 1)) (second :: rest) := by
      rwa [Nat.pow_succ, Nat.mul_comm _ 2, ← Nat.mul_assoc, Nat.mul_comm half 2]
    exact lower.push (covers.copy last bounded)

/-- Without a round left, or in the rounds left, a stack over some leaves is brought to a single
subtree, which stands for the root. -/
theorem closeWithin_stacked (nonempty : 0 < elements.length)
    (bounded : ∀ position, kept position → position < elements.length)
    {rounds height : Nat} {stack : List (Pending ε ν)}
    (stacked : Stacked elements kept
      ((level (leaves elements : List ν) height).length * 2 ^ height) stack)
    (below : ∀ lower < height, 1 < (level (leaves elements : List ν) lower).length)
    (enough : elements.length ≤ 2 ^ (height + rounds)) :
    ∃ last, Pending.closeWithin rounds stack = some last ∧
      Covers elements kept (Nat.clog 2 elements.length) 0 last := by
  induction rounds generalizing height stack with
  | zero =>
      match stack with
      | [] => exact absurd stacked (not_stacked_nil nonempty)
      | [last] => exact ⟨last, rfl, stacked.last below⟩
      | top :: second :: rest =>
          obtain ⟨higher, above, wide, _⟩ := stacked.copy bounded below
          have several := wide height above
          have fits := (length_level_le_iff (leaves elements : List ν) height 1).2
            (by simpa using enough)
          omega
  | succ rounds ih =>
      match stack with
      | [] => exact absurd stacked (not_stacked_nil nonempty)
      | [last] => exact ⟨last, rfl, stacked.last below⟩
      | top :: second :: rest =>
          obtain ⟨higher, above, wide, next⟩ := stacked.copy bounded below
          exact ih next wide (enough.trans (Nat.pow_le_pow_right (by omega) (by omega)))

/-- A builder with all leaves of a nonempty list closes to the plain tree. -/
theorem close_stacked {builder : TreeBuilder ε ν} (nonempty : 0 < elements.length)
    (bounded : ∀ position, kept position → position < elements.length)
    (all : builder.inserted = elements.length)
    (stacked : Stacked elements kept builder.inserted builder.stack) :
    ∃ tree, builder.close = .ok tree ∧ tree.registered = builder.registered ∧
      Complete elements kept tree := by
  have enough : elements.length ≤ 2 ^ (0 + (builder.inserted.log2 + 1)) := by
    rw [all, Nat.zero_add]
    exact Nat.le_of_lt Nat.lt_log2_self
  have start : Stacked elements kept
      ((level (leaves elements : List ν) 0).length * 2 ^ 0) builder.stack := by
    simpa [all] using stacked
  obtain ⟨top, closed, covers⟩ := closeWithin_stacked nonempty bounded start (by simp) enough
  refine ⟨_, by rw [TreeBuilder.close, closed], rfl, ?_, ?_, all, covers.branches⟩
  · have single := length_level_clog_le_one (leaves elements : List ν)
    rw [length_leaves] at single
    have node := covers.node
    generalize level (leaves elements : List ν) (Nat.clog 2 elements.length) = top at single node ⊢
    match top with
    | [root] => simpa using node
  · simp [Tree.depth, covers.size]

/-! ### Looking up branches -/

/-- A position that was registered in time has its branch. -/
theorem Complete.branch {tree : Tree ε ν} (complete : Complete elements kept tree) {position : Nat}
    (inside : position < elements.length) (isKept : kept position)
    (registered : position ∈ tree.registered) :
    ∃ branch, tree.branch position = .ok branch ∧
      IsBranch elements (Nat.clog 2 elements.length) position branch := by
  obtain ⟨branch, member⟩ := complete.branches.complete position (div_pow_clog inside) isKept
  cases found : tree.branches.find? (·.1 = position) with
  | none =>
      have missing := List.find?_eq_none.1 found _ member
      simp at missing
  | some entry =>
      obtain ⟨other, branch⟩ := entry
      have same : other = position := by simpa using List.find?_some found
      subst same
      obtain ⟨_, _, isBranch⟩ := complete.branches.sound _ _ (List.mem_of_find?_eq_some found)
      exact ⟨branch, by rw [Tree.branch, if_pos registered, found], isBranch⟩

end MiningPool.Merkle
