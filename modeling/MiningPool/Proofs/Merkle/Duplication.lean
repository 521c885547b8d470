/-
Module: MiningPool.Proofs.Merkle.Duplication
Purpose: elements that come once more where closing a tree makes copies do not change the tree.
Main exports: Merkle.duplicated, Merkle.Copied, Merkle.Copied.level, Merkle.AuthPath.of_copied,
  Merkle.perfectRoot?, Merkle.exists_perfect, Merkle.duplicated_of_calls
-/
import Mathlib.NumberTheory.Padics.PadicVal.Basic
import MiningPool.Proofs.Merkle.Authentication

/-!
The last of the complete subtrees of a builder has as many leaves as the largest power of two that divides
the number of elements. Closing begins by combining it with a copy of itself, so it makes no difference if
its elements are inserted once more. Unless the number of elements is a power of two this leaves the height
of the tree alone, and it can be repeated until the tree is perfect.
-/

namespace MiningPool.Merkle

/-! ### Copies of the last items -/

section

variable {α : Type} {items : List α}

/-- The items and a copy of the last of them, as many as the largest power of two that divides their
number. -/
def duplicated (items : List α) : List α :=
  items ++ items.drop (items.length - 2 ^ padicValNat 2 items.length)

theorem pow_padicValNat_le {count : Nat} (positive : 0 < count) : 2 ^ padicValNat 2 count ≤ count :=
  Nat.le_of_dvd positive pow_padicValNat_dvd

theorem length_duplicated (nonempty : 0 < items.length) :
    (duplicated items).length = items.length + 2 ^ padicValNat 2 items.length := by
  rw [duplicated, List.length_append, List.length_drop, Nat.sub_sub_self (pow_padicValNat_le nonempty)]

theorem map_duplicated {β : Type} (f : α → β) :
    (duplicated items).map f = duplicated (items.map f) := by
  simp only [duplicated, List.map_append, List.map_drop, List.length_map]

/-- Of an odd number of items, the last one is copied. -/
theorem duplicated_of_odd (odd : items.length % 2 = 1) :
    duplicated items = items ++ items.drop (items.length - 1) := by
  have none : padicValNat 2 items.length = 0 := padicValNat.eq_zero_of_not_dvd (by omega)
  rw [duplicated, none, Nat.pow_zero]

/-- Of an even number of items, whole pairs are copied. -/
theorem sub_pow_padicValNat_of_even {count : Nat} (positive : 0 < count) (even : count % 2 = 0) :
    count - 2 ^ padicValNat 2 count = 2 * (count / 2 - 2 ^ padicValNat 2 (count / 2)) := by
  obtain ⟨half, rfl⟩ := Nat.dvd_of_mod_eq_zero even
  have once : padicValNat 2 (2 * half) = padicValNat 2 half + 1 := by
    rw [padicValNat.mul (by decide) (by omega), padicValNat_self, Nat.add_comm]
  rw [Nat.mul_div_cancel_left half Nat.two_pos, once, Nat.pow_succ, Nat.mul_sub,
    Nat.mul_comm (2 ^ _) 2]

/-- A copy fits into the tree, unless the tree is perfect without it. -/
theorem clog_length_duplicated (nonempty : 0 < items.length) (uneven : ¬items.length.isPowerOfTwo) :
    Nat.clog 2 (duplicated items).length = Nat.clog 2 items.length := by
  rw [length_duplicated nonempty]
  have fits : items.length < 2 ^ Nat.clog 2 items.length :=
    Nat.lt_of_le_of_ne (Nat.le_pow_clog Nat.one_lt_two _) fun full => uneven ⟨_, full⟩
  have lower : padicValNat 2 items.length ≤ Nat.clog 2 items.length := by
    apply (Nat.pow_le_pow_iff_right Nat.one_lt_two).1
    exact Nat.le_of_lt (Nat.lt_of_le_of_lt (pow_padicValNat_le nonempty) fits)
  have room : 2 ^ padicValNat 2 items.length ≤ 2 ^ Nat.clog 2 items.length - items.length := by
    apply Nat.le_of_dvd (Nat.sub_pos_of_lt fits)
    exact Nat.dvd_sub (Nat.pow_dvd_pow 2 lower) pow_padicValNat_dvd
  apply Nat.le_antisymm
  · apply Nat.clog_le_of_le_pow
    omega
  · exact Nat.clog_mono_right 2 (Nat.le_add_right _ _)

end

/-! ### One level -/

variable {ε ν : Type} [TreeNode ε ν]

theorem leaves_duplicated (elements : List ε) :
    (leaves (duplicated elements) : List ν) = duplicated (leaves elements) :=
  map_duplicated TreeNode.leaf

/-- Nodes behind an even number of others are combined among themselves. -/
theorem pairUp_append {earlier : List ν} (even : earlier.length % 2 = 0) (later : List ν) :
    pairUp (earlier ++ later) = pairUp earlier ++ pairUp later := by
  fun_induction pairUp earlier with
  | case1 => rfl
  | case2 last => simp at even
  | case3 left right rest ih =>
      simp only [List.length_cons] at even
      rw [List.cons_append, List.cons_append, pairUp, List.cons_append, ih (by omega)]

theorem drop_pairUp (nodes : List ν) (count : Nat) :
    (pairUp nodes).drop count = pairUp (nodes.drop (2 * count)) := by
  fun_induction pairUp nodes generalizing count with
  | case1 => simp [pairUp]
  | case2 last =>
      cases count with
      | zero => simp [pairUp]
      | succ count => simp [Nat.mul_succ, pairUp]
  | case3 left right rest ih =>
      cases count with
      | zero => rfl
      | succ count => exact ih count

/-- The nodes themselves, or with a copy of the last of them. -/
def Copied (nodes longer : List ν) : Prop :=
  longer = nodes ∨ (0 < nodes.length ∧ longer = duplicated nodes)

section

variable {nodes longer : List ν}

/-- The parent of the last node of an odd level is that of the node and its copy. -/
theorem pairUp_duplicated_of_odd (odd : nodes.length % 2 = 1) :
    pairUp (duplicated nodes) = pairUp nodes := by
  rw [duplicated_of_odd odd]
  rcases List.eq_nil_or_concat nodes with rfl | ⟨front, last, rfl⟩
  · simp at odd
  · rw [List.concat_eq_append, List.length_append, List.length_singleton] at odd ⊢
    have even : front.length % 2 = 0 := by omega
    rw [Nat.add_sub_cancel, List.drop_left, List.append_assoc, pairUp_append even,
      pairUp_append even]
    rfl

theorem pairUp_duplicated_of_even (nonempty : 0 < nodes.length) (even : nodes.length % 2 = 0) :
    pairUp (duplicated nodes) = duplicated (pairUp nodes) := by
  have halves : (nodes.length + 1) / 2 = nodes.length / 2 := by omega
  rw [duplicated, pairUp_append even, sub_pow_padicValNat_of_even nonempty even, ← drop_pairUp,
    duplicated, length_pairUp, halves]

namespace Copied

theorem pairUp (copied : Copied nodes longer) : Copied (pairUp nodes) (pairUp longer) := by
  rcases copied with rfl | ⟨nonempty, rfl⟩
  · exact .inl rfl
  · rcases Nat.mod_two_eq_zero_or_one nodes.length with even | odd
    · refine .inr ⟨?_, pairUp_duplicated_of_even nonempty even⟩
      rw [length_pairUp]
      omega
    · exact .inl (pairUp_duplicated_of_odd odd)

/-- The copy stands beside what it is a copy of. -/
theorem beside (copied : Copied nodes longer) {place : Nat} {sibling : ν}
    (neighbour : beside nodes place = some sibling) : Merkle.beside longer place = some sibling := by
  rcases copied with rfl | ⟨_, rfl⟩
  · exact neighbour
  · unfold Merkle.beside at neighbour ⊢
    split at neighbour
    · rename_i odd
      have inside : place - 1 < nodes.length := (List.getElem?_eq_some_iff.1 neighbour).1
      rw [if_pos odd, duplicated, List.getElem?_append_left inside, neighbour]
    · rename_i even
      obtain ⟨own, here, same⟩ := Option.map_eq_some_iff.1 neighbour
      have inside : place < nodes.length := (List.getElem?_eq_some_iff.1 here).1
      rw [if_neg even]
      by_cases last : place + 1 = nodes.length
      · have odd : nodes.length % 2 = 1 := by omega
        have copy : (duplicated nodes)[place + 1]? = some own := by
          rw [duplicated_of_odd odd, last, List.getElem?_append_right (Nat.le_refl _), Nat.sub_self,
            List.getElem?_drop, Nat.add_zero, ← last, Nat.add_sub_cancel, here]
        rw [List.getElem?_eq_none (Nat.le_of_eq last.symm), Option.getD_none] at same
        rw [copy, duplicated, List.getElem?_append_left inside, here, ← same]
        rfl
      · rw [duplicated, List.getElem?_append_left inside, List.getElem?_append_left (by omega)]
        exact neighbour

/-! ### All levels -/

theorem level (copied : Copied nodes longer) (height : Nat) :
    Copied (level nodes height) (Merkle.level longer height) := by
  induction height with
  | zero => exact copied
  | succ height ih => exact ih.pairUp

end Copied

theorem AuthPath.of_copied (copied : Copied nodes longer) {position height : Nat} {path : Path ν}
    (authPath : AuthPath nodes position height path) : AuthPath longer position height path := by
  induction authPath with
  | leaf bottom =>
      apply AuthPath.leaf
      rcases copied with rfl | ⟨_, rfl⟩
      · exact bottom
      · rwa [duplicated, List.getElem?_append_left (List.getElem?_eq_some_iff.1 bottom).1]
  | afterNode lower odd neighbour ih => exact .afterNode ih odd ((copied.level _).beside neighbour)
  | beforeNode lower even neighbour ih => exact .beforeNode ih even ((copied.level _).beside neighbour)

/-- Nodes and a position leave no choice of the path up to a height. -/
theorem AuthPath.unique {position height : Nat} {path other : Path ν}
    (authPath : AuthPath nodes position height path)
    (also : AuthPath nodes position height other) : path = other := by
  induction authPath generalizing other with
  | leaf bottom =>
      cases also with
      | leaf same =>
          rw [bottom] at same
          cases same
          rfl
  | afterNode lower odd neighbour ih =>
      cases also with
      | afterNode otherLower _ otherNeighbour =>
          rw [neighbour] at otherNeighbour
          cases otherNeighbour
          rw [ih otherLower]
      | beforeNode _ even _ => omega
  | beforeNode lower even neighbour ih =>
      cases also with
      | afterNode _ odd _ => omega
      | beforeNode otherLower _ otherNeighbour =>
          rw [neighbour] at otherNeighbour
          cases otherNeighbour
          rw [ih otherLower]

end

variable {elements : List ε}

theorem IsBranch.of_duplicated (nonempty : 0 < elements.length) {height position : Nat}
    {branch : Branch ε ν} (isBranch : IsBranch elements height position branch) :
    IsBranch (duplicated elements) height position branch where
  element := by
    rw [duplicated, List.getElem?_append_left (List.getElem?_eq_some_iff.1 isBranch.element).1]
    exact isBranch.element
  path := by
    rw [leaves_duplicated]
    exact isBranch.path.of_copied (.inr ⟨by rwa [length_leaves], rfl⟩)

theorem IsBranch.unique {height position : Nat} {branch other : Branch ε ν}
    (isBranch : IsBranch elements height position branch)
    (also : IsBranch elements height position other) : branch = other := by
  obtain ⟨element, path⟩ := branch
  obtain ⟨otherElement, otherPath⟩ := other
  have sameElement := isBranch.element.symm.trans also.element
  have samePath : path = otherPath := isBranch.path.unique also.path
  rw [Option.some.injEq] at sameElement
  rw [samePath, show element = otherElement from sameElement]

/-- A copy that the tree would make anyway leaves its highest level as it is. -/
theorem top_duplicated (nonempty : 0 < elements.length) (uneven : ¬elements.length.isPowerOfTwo)
    {root : ν} (top : level (leaves elements) (Nat.clog 2 elements.length) = [root]) :
    level (leaves (duplicated elements)) (Nat.clog 2 (duplicated elements).length) = [root] := by
  have copied : Copied (leaves elements : List ν) (leaves (duplicated elements)) :=
    .inr ⟨by rwa [length_leaves], leaves_duplicated elements⟩
  have single := length_level_clog_le_one (leaves (duplicated elements) : List ν)
  rw [length_leaves] at single
  rw [clog_length_duplicated nonempty uneven] at single ⊢
  rcases copied.level (Nat.clog 2 elements.length) with same | ⟨_, twice⟩
  · rw [same, top]
  · rw [twice, length_duplicated (by rw [top]; exact Nat.one_pos), top] at single
    exact absurd single (by simp)

/-! ### Perfect trees -/

/-- The root of the perfect tree of a height over nodes, made of the roots over its two halves. -/
def perfectRoot? : Nat → List ν → Option ν
  | 0, [root] => some root
  | 0, _ => none
  | height + 1, nodes =>
    match perfectRoot? height (nodes.take (2 ^ height)),
      perfectRoot? height (nodes.drop (2 ^ height)) with
    | some left, some right => some (TreeNode.combine left right)
    | _, _ => none

/-- Nodes behind whole subtrees make up levels of their own. -/
theorem level_append {earlier : List ν} {height count : Nat} (whole : earlier.length = count * 2 ^ height)
    (later : List ν) :
    level (earlier ++ later) height = level earlier height ++ level later height := by
  induction height generalizing count with
  | zero => rfl
  | succ height ih =>
      have pairs : earlier.length = count * 2 * 2 ^ height := by
        rw [whole, Nat.pow_succ, Nat.mul_comm _ 2, Nat.mul_assoc]
      have even : (level earlier (0 + height)).length = count * 2 := length_level_add pairs
      rw [Nat.zero_add] at even
      rw [level_succ, ih pairs, pairUp_append (by rw [even]; exact Nat.mul_mod_left count 2)]
      rfl

/-- Over as many nodes as it can have, the plain tree is the perfect one. -/
theorem exists_perfectRoot?_eq {nodes : List ν} {height : Nat} (full : nodes.length = 2 ^ height) :
    ∃ root, perfectRoot? height nodes = some root ∧ level nodes height = [root] := by
  induction height generalizing nodes with
  | zero =>
      obtain ⟨root, rfl⟩ := List.length_eq_one_iff.1 full
      exact ⟨root, rfl, rfl⟩
  | succ height ih =>
      rw [Nat.pow_succ, Nat.mul_two] at full
      have first : (nodes.take (2 ^ height)).length = 2 ^ height := by
        rw [List.length_take]
        omega
      have second : (nodes.drop (2 ^ height)).length = 2 ^ height := by
        rw [List.length_drop]
        omega
      obtain ⟨left, leftRoot, leftLevel⟩ := ih first
      obtain ⟨right, rightRoot, rightLevel⟩ := ih second
      refine ⟨TreeNode.combine left right, by rw [perfectRoot?, leftRoot, rightRoot], ?_⟩
      have halves := level_append (by rw [first, Nat.one_mul]) (nodes.drop (2 ^ height))
      rw [List.take_append_drop, leftLevel, rightLevel] at halves
      rw [level_succ, halves]
      rfl

/-- Copies are made as long as the number of elements is no power of two, and then the tree is perfect
and has the root that it has had all along. -/
theorem exists_perfect (nonempty : 0 < elements.length) {root : ν}
    (top : level (leaves elements) (Nat.clog 2 elements.length) = [root]) :
    ∃ rounds, (∀ earlier < rounds, ¬(duplicated^[earlier] elements).length.isPowerOfTwo) ∧
      (duplicated^[rounds] elements).length = 2 ^ Nat.clog 2 elements.length ∧
      perfectRoot? (Nat.clog 2 elements.length) (leaves (duplicated^[rounds] elements)) = some root := by
  -- Every copy makes the distance to the next power of two smaller.
  induction distance : 2 ^ Nat.clog 2 elements.length - elements.length using Nat.strongRecOn
    generalizing elements with
  | ind distance ih =>
      by_cases even : elements.length.isPowerOfTwo
      · obtain ⟨height, full⟩ := even
        have same : Nat.clog 2 elements.length = height := by
          rw [full]
          exact Nat.clog_pow 2 height Nat.one_lt_two
        rw [same] at top ⊢
        obtain ⟨perfect, isRoot, isTop⟩ :=
          exists_perfectRoot?_eq ((length_leaves (ν := ν) elements).trans full)
        rw [top, List.singleton_inj] at isTop
        exact ⟨0, fun _ none => absurd none (Nat.not_lt_zero _), full, isTop ▸ isRoot⟩
      · have copied := length_duplicated nonempty
        have positive := Nat.two_pow_pos (padicValNat 2 elements.length)
        have height := clog_length_duplicated nonempty even
        have fits := Nat.le_pow_clog Nat.one_lt_two (duplicated elements).length
        rw [height] at fits
        obtain ⟨rounds, uneven, full, isRoot⟩ :=
          ih (2 ^ Nat.clog 2 (duplicated elements).length - (duplicated elements).length)
            (by rw [height]; omega) (by omega) (top_duplicated nonempty even top) rfl
        rw [height] at full isRoot
        refine ⟨rounds + 1, ?_, full, isRoot⟩
        intro earlier before
        cases earlier with
        | zero => exact even
        | succ earlier => exact uneven earlier (Nat.lt_of_succ_lt_succ before)

/-- If the number of elements is no power of two, a copy of the last of them, as many as the largest power
of two that divides their number, changes neither the root nor the height of the tree, nor the branch of any
position that has one in both trees. Repeated, this leads to the elements of the perfect tree with that
root. -/
theorem duplicated_of_calls {calls longer : List (TreeCall ε)} (nonempty : 0 < elements.length)
    (uneven : ¬elements.length.isPowerOfTwo) (inOrder : insertions calls = elements.zipIdx)
    (alsoInOrder : insertions longer = (duplicated elements).zipIdx) :
    ∃ (builder largerBuilder : TreeBuilder ε ν) (tree larger : Tree ε ν),
      TreeBuilder.empty.run calls = .ok builder ∧ builder.close = .ok tree ∧
      TreeBuilder.empty.run longer = .ok largerBuilder ∧ largerBuilder.close = .ok larger ∧
      larger.root = tree.root ∧ larger.depth = tree.depth ∧
      (∀ position, InTime calls position → InTime longer position →
        ∃ branch, tree.branch position = .ok branch ∧ larger.branch position = .ok branch) ∧
      ∃ rounds, (∀ earlier < rounds, ¬(duplicated^[earlier] elements).length.isPowerOfTwo) ∧
        (duplicated^[rounds] elements).length = 2 ^ Nat.clog 2 elements.length ∧
        perfectRoot? (Nat.clog 2 elements.length) (leaves (duplicated^[rounds] elements)) =
          some tree.root := by
  have moreNonempty : 0 < (duplicated elements).length := by
    rw [length_duplicated nonempty]
    exact Nat.add_pos_left nonempty _
  have height := clog_length_duplicated nonempty uneven
  obtain ⟨builder, tree, taken, closed, registered, complete⟩ :=
    exists_complete_of_calls (ν := ν) nonempty inOrder
  obtain ⟨largerBuilder, larger, allTaken, alsoClosed, alsoRegistered, largerComplete⟩ :=
    exists_complete_of_calls (ν := ν) moreNonempty alsoInOrder
  refine ⟨builder, largerBuilder, tree, larger, taken, closed, allTaken, alsoClosed, ?_, ?_, ?_,
    exists_perfect nonempty complete.root⟩
  · have top := top_duplicated nonempty uneven complete.root
    rw [largerComplete.root] at top
    exact List.singleton_inj.1 top
  · rw [largerComplete.depth, height, complete.depth]
  · intro position inTime alsoInTime
    obtain ⟨branch, found, isBranch⟩ := complete.branch (inTime.lt_length inOrder) inTime
      (registered ▸ inTime.mem_registrations)
    obtain ⟨other, alsoFound, isOther⟩ := largerComplete.branch (alsoInTime.lt_length alsoInOrder)
      alsoInTime (alsoRegistered ▸ alsoInTime.mem_registrations)
    rw [height] at isOther
    have same : branch = other := (isBranch.of_duplicated nonempty).unique isOther
    exact ⟨branch, found, same ▸ alsoFound⟩

/-- The calls for three words, and then the last word once more. -/
def fourCalls : List (TreeCall Word) := threeCalls ++ [.insert (.replicate 128 2) 3]

theorem duplicated_of_four_calls :
    0 < threeWords.length ∧ ¬threeWords.length.isPowerOfTwo ∧
      insertions threeCalls = threeWords.zipIdx ∧
      insertions fourCalls = (duplicated threeWords).zipIdx ∧
      InTime threeCalls 2 ∧ InTime fourCalls 2 ∧
      ∃ (builder largerBuilder : DatasetBuilder) (tree larger : DatasetTree),
        TreeBuilder.empty.run threeCalls = .ok builder ∧ builder.close = .ok tree ∧
        TreeBuilder.empty.run fourCalls = .ok largerBuilder ∧ largerBuilder.close = .ok larger ∧
        larger.root = tree.root ∧ larger.depth = tree.depth ∧
        ∃ branch, tree.branch 2 = .ok branch ∧ larger.branch 2 = .ok branch := by
  have uneven : ¬threeWords.length.isPowerOfTwo := show ¬Nat.isPowerOfTwo 3 by decide
  have inOrder : insertions threeCalls = threeWords.zipIdx := rfl
  have alsoInOrder : insertions fourCalls = (duplicated threeWords).zipIdx := by
    rw [duplicated_of_odd rfl]
    rfl
  have inTime : InTime threeCalls 2 := ⟨threeCalls.take 4, .replicate 128 2, [], rfl, by decide⟩
  have alsoInTime : InTime fourCalls 2 :=
    ⟨threeCalls.take 4, .replicate 128 2, fourCalls.drop 5, rfl, by decide⟩
  obtain ⟨builder, largerBuilder, tree, larger, taken, closed, allTaken, alsoClosed, root, depth,
    branches, _⟩ := duplicated_of_calls (ν := DatasetNode) (by decide) uneven inOrder alsoInOrder
  exact ⟨by decide, uneven, inOrder, alsoInOrder, inTime, alsoInTime, builder, largerBuilder, tree,
    larger, taken, closed, allTaken, alsoClosed, root, depth, branches 2 inTime alsoInTime⟩

end MiningPool.Merkle
