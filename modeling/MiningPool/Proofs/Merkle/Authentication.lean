/-
Module: MiningPool.Proofs.Merkle.Authentication
Purpose: the branch of a leaf is its path through the plain tree.
Main exports: Merkle.beside_eq, Merkle.AuthPath.of_getElem?_siblings, Merkle.Authenticates,
  Merkle.authenticates_of_calls
-/
import Mathlib.Data.Nat.Bitwise
import MiningPool.Proofs.Merkle.Plain
import MiningPool.Proofs.Merkle.Root

/-!
Two neighbours that are combined differ in the last binary digit of their places. So the digits of a
position tell on which side the sibling of every level stands and where in the plain tree it is found;
where a level ends with the path, the path is its own sibling.
-/

namespace MiningPool.Merkle

variable {ε ν : Type} [TreeNode ε ν]

/-! ### The place beside a place -/

/-- Changing the last binary digit goes to the neighbour. -/
theorem xor_one_eq (place : Nat) :
    place ^^^ 1 = if place % 2 = 1 then place - 1 else place + 1 := by
  have quotient : (place ^^^ 1) / 2 = place / 2 := by
    rw [Nat.xor_div_two]
    exact Nat.xor_zero _
  have remainder : (place ^^^ 1) % 2 = (place + 1) % 2 := Nat.xor_mod_two_eq
  split <;> omega

theorem beside_eq (nodes : List ν) (place : Nat) :
    beside nodes place =
      if place ^^^ 1 < nodes.length then nodes[place ^^^ 1]? else nodes[place]? := by
  rw [xor_one_eq, beside]
  by_cases odd : place % 2 = 1
  · rw [if_pos odd, if_pos odd]
    split
    · rfl
    · rw [List.getElem?_eq_none (by omega), List.getElem?_eq_none (by omega)]
  · rw [if_neg odd, if_neg odd]
    split
    · rename_i inside
      rw [List.getElem?_eq_getElem inside, List.getElem?_eq_getElem (Nat.lt_of_succ_lt inside)]
      rfl
    · rename_i outside
      rw [List.getElem?_eq_none (Nat.le_of_not_lt outside)]
      cases nodes[place]? <;> rfl

/-! ### Paths -/

namespace AuthPath

variable {nodes : List ν} {position height : Nat} {path : Path ν}

theorem getElem?_bottom (authPath : AuthPath nodes position height path) :
    nodes[position]? = some path.bottom := by
  induction authPath with
  | leaf bottom => exact bottom
  | afterNode lower odd neighbour ih => exact ih
  | beforeNode lower even neighbour ih => exact ih

/-- The siblings of a path with one more level are those below and the new one. -/
theorem getElem?_concat {below : List (Sibling ν)} {last sibling : Sibling ν} {lower : Nat}
    (count : below.length = height) (found : (below ++ [last])[lower]? = some sibling) :
    below[lower]? = some sibling ∨ (lower = height ∧ sibling = last) := by
  rcases Nat.lt_trichotomy lower below.length with inside | same | beyond
  · rw [List.getElem?_append_left inside] at found
    exact .inl found
  · subst same
    rw [List.getElem?_concat_length, Option.some.injEq] at found
    exact .inr ⟨count, found.symm⟩
  · rw [List.getElem?_eq_none (by simp; omega)] at found
    cases found

/-- On every level the binary digit of the position tells the side of the sibling, which stands beside
the path. -/
theorem of_getElem?_siblings (authPath : AuthPath nodes position height path) {lower : Nat}
    {sibling : Sibling ν} (found : path.siblings[lower]? = some sibling) :
    (sibling.side = .left ↔ position.testBit lower = true) ∧
      beside (level nodes lower) (position / 2 ^ lower) = some sibling.node := by
  induction authPath with
  | leaf bottom => cases found
  | afterNode below odd neighbour ih =>
      rcases getElem?_concat below.length_siblings found with earlier | ⟨rfl, rfl⟩
      · exact ih earlier
      · simp [testBit_of_mod odd, neighbour]
  | beforeNode below even neighbour ih =>
      rcases getElem?_concat below.length_siblings found with earlier | ⟨rfl, rfl⟩
      · exact ih earlier
      · simp [testBit_of_mod_zero even, neighbour]

theorem exists_below (authPath : AuthPath nodes position (height + 1) path) :
    ∃ below : Path ν, AuthPath nodes position height below ∧
      below.siblings = path.siblings.take height := by
  cases authPath with
  | @afterNode _ sibling below lower odd neighbour =>
      refine ⟨below, lower, ?_⟩
      rw [Path.siblings, List.take_left' lower.length_siblings]
  | @beforeNode _ sibling below lower even neighbour =>
      refine ⟨below, lower, ?_⟩
      rw [Path.siblings, List.take_left' lower.length_siblings]

/-- The lower levels of a path are a path. -/
theorem exists_take (authPath : AuthPath nodes position height path) {lower : Nat}
    (inside : lower ≤ height) :
    ∃ start : Path ν, AuthPath nodes position lower start ∧
      start.siblings = path.siblings.take lower := by
  obtain ⟨more, rfl⟩ := Nat.exists_eq_add_of_le inside
  induction more generalizing path with
  | zero =>
      refine ⟨path, authPath, ?_⟩
      exact (List.take_of_length_le (Nat.le_of_eq authPath.length_siblings)).symm
  | succ more ih =>
      obtain ⟨below, isBelow, siblings⟩ : ∃ below : Path ν,
          AuthPath nodes position (lower + more) below ∧
            below.siblings = path.siblings.take (lower + more) := authPath.exists_below
      obtain ⟨start, isStart, same⟩ := ih isBelow (Nat.le_add_right lower more)
      refine ⟨start, isStart, ?_⟩
      rw [same, siblings, List.take_take, Nat.min_eq_left (Nat.le_add_right lower more)]

end AuthPath

/-! ### Branches -/

/-- The branch holds the element at the position, its leaf, and on every level the node of the plain tree
that the path is combined with. -/
structure Authenticates (elements : List ε) (position : Nat) (branch : Branch ε ν) : Prop where
  element : elements[position]? = some branch.element
  leaf : branch.leaf = TreeNode.leaf branch.element
  depth : branch.siblings.length = Nat.clog 2 elements.length
  side : ∀ height sibling, branch.siblings[height]? = some sibling →
    (sibling.side = .left ↔ position.testBit height = true)
  node : ∀ height sibling, branch.siblings[height]? = some sibling →
    some sibling.node =
      if (position >>> height) ^^^ 1 < (level (leaves elements : List ν) height).length then
        (level (leaves elements) height)[(position >>> height) ^^^ 1]?
      else (level (leaves elements) height)[position >>> height]?

variable {elements : List ε} {position : Nat}

theorem IsBranch.authenticates {branch : Branch ε ν}
    (isBranch : IsBranch elements (Nat.clog 2 elements.length) position branch) :
    Authenticates elements position branch where
  element := isBranch.element
  leaf := by
    have bottom := isBranch.path.getElem?_bottom
    rw [leaves, List.getElem?_map, isBranch.element, Option.map_some, Option.some.injEq] at bottom
    exact bottom.symm
  depth := isBranch.path.length_siblings
  side := fun _ _ found => (isBranch.path.of_getElem?_siblings found).1
  node := by
    intro height sibling found
    rw [Nat.shiftRight_eq_div_pow, ← beside_eq]
    exact (isBranch.path.of_getElem?_siblings found).2.symm

/-- Every position that is registered before its leaf is inserted has its path through the plain tree as
its branch, which leads to the root. -/
theorem authenticates_of_calls {calls : List (TreeCall ε)} (nonempty : 0 < elements.length)
    (inOrder : insertions calls = elements.zipIdx) :
    ∃ (builder : TreeBuilder ε ν) (tree : Tree ε ν), TreeBuilder.empty.run calls = .ok builder ∧
      builder.close = .ok tree ∧
      ∀ position, InTime calls position → ∃ branch, tree.branch position = .ok branch ∧
        Authenticates elements position branch ∧ branch.computeRoot = tree.root := by
  obtain ⟨builder, tree, taken, closed, registered, complete⟩ :=
    exists_complete_of_calls (ν := ν) nonempty inOrder
  refine ⟨builder, tree, taken, closed, ?_⟩
  intro position inTime
  have registration : position ∈ tree.registered := by
    rw [registered]
    exact inTime.mem_registrations
  obtain ⟨branch, found, isBranch⟩ :=
    complete.branch (inTime.lt_length inOrder) inTime registration
  exact ⟨branch, found, isBranch.authenticates, isBranch.computeRoot_eq complete⟩

/-- The last of three words is combined with itself. -/
theorem authenticates_of_three_calls :
    0 < threeWords.length ∧ insertions threeCalls = threeWords.zipIdx ∧ InTime threeCalls 2 ∧
      ∃ (builder : DatasetBuilder) (tree : DatasetTree),
        TreeBuilder.empty.run threeCalls = .ok builder ∧ builder.close = .ok tree ∧
        ∃ branch, tree.branch 2 = .ok branch ∧ Authenticates threeWords 2 branch ∧
          branch.computeRoot = tree.root := by
  have inOrder : insertions threeCalls = threeWords.zipIdx := rfl
  have inTime : InTime threeCalls 2 :=
    ⟨threeCalls.take 4, .replicate 128 2, [], rfl, by decide⟩
  obtain ⟨builder, tree, taken, closed, authenticated⟩ :=
    authenticates_of_calls (ν := DatasetNode) (by decide) inOrder
  exact ⟨by decide, inOrder, inTime, builder, tree, taken, closed, authenticated 2 inTime⟩

end MiningPool.Merkle
