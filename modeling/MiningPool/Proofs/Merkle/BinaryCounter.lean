/-
Module: MiningPool.Proofs.Merkle.BinaryCounter
Purpose: the stack of a tree under construction is the binary representation of the number of its leaves.
Main exports: Pending.copyTop, Pending.sums, Merkle.Stacked.map_leaves, Merkle.Stacked.exists_rounds,
  Merkle.IsSlice, Merkle.Counts, Merkle.Closing, Merkle.counts_of_calls
-/
import Mathlib.Data.Nat.BitIndices
import MiningPool.Proofs.Merkle.Duplication
import MiningPool.Proofs.Merkle.Registration

/-!
Putting a leaf on the stack is adding one to a binary number: a subtree of 2ᵏ leaves stands for the digit of
that weight, and equal subtrees are carried. Closing adds the lowest digit once more in every round. The
number of subtrees need not become smaller by this, but the lowest digit moves up, and it cannot move above
the highest digit that the padded number of leaves has in the end.
-/

namespace MiningPool

/-! ### Putting a subtree on a stack -/

namespace Pending

variable {ε ν : Type}

/-- The positions that have a branch in a subtree. -/
def positions (pending : Pending ε ν) : List Nat := pending.branches.map Prod.fst

variable [TreeNode ε ν]

/-- A round of closing a tree: a copy of the topmost subtree is put on the stack. -/
def copyTop : List (Pending ε ν) → List (Pending ε ν)
  | [] => []
  | top :: rest => push (top :: rest) top.duplicate

/-- The numbers of leaves that are made by adding while a subtree is put on a stack. -/
def sums : List (Pending ε ν) → Pending ε ν → List Nat
  | [], _ => []
  | top :: rest, pending =>
    if top.leaves = pending.leaves then
      (top.leaves + pending.leaves) :: sums rest (merge top pending)
    else []

variable {stack : List (Pending ε ν)} {pending last : Pending ε ν}

@[simp] theorem leaves_merge (left right : Pending ε ν) :
    (merge left right).leaves = left.leaves + right.leaves := rfl

@[simp] theorem positions_merge (left right : Pending ε ν) :
    (merge left right).positions = left.positions ++ right.positions := by
  simp [positions, merge, Function.comp_def]

/-- No leaf is lost, and none is counted twice. -/
theorem sum_leaves_push (stack : List (Pending ε ν)) (pending : Pending ε ν) :
    ((push stack pending).map (·.leaves)).sum = (stack.map (·.leaves)).sum + pending.leaves := by
  induction stack generalizing pending with
  | nil => simp [push]
  | cons first below ih =>
      rw [push]
      split
      · rw [ih, leaves_merge, List.map_cons, List.sum_cons]
        omega
      · rw [List.map_cons, List.sum_cons, Nat.add_comm]

/-- What is added up is part of the number of all leaves. -/
theorem le_of_mem_sums {sum : Nat} (member : sum ∈ sums stack pending) :
    sum ≤ (stack.map (·.leaves)).sum + pending.leaves := by
  induction stack generalizing pending with
  | nil => simp [sums] at member
  | cons first below ih =>
      rw [sums] at member
      rw [List.map_cons, List.sum_cons]
      split at member
      · rcases List.mem_cons.1 member with rfl | later
        · omega
        · have grown := ih later
          rw [leaves_merge] at grown
          omega
      · simp at member

/-- Putting a subtree on a stack keeps the positions of all branches in their order, the topmost last. -/
theorem flatMap_positions_push (stack : List (Pending ε ν)) (pending : Pending ε ν) :
    (push stack pending).reverse.flatMap positions =
      stack.reverse.flatMap positions ++ pending.positions := by
  induction stack generalizing pending with
  | nil => simp [push]
  | cons first below ih =>
      rw [push]
      split
      · simp [ih]
      · simp

/-- Rounds that lead to a single subtree close the tree, if at least so many are allowed. -/
theorem closeWithin_of_rounds {rounds limit : Nat} (reached : copyTop^[rounds] stack = [last])
    (several : ∀ earlier < rounds, 2 ≤ (copyTop^[earlier] stack).length) (enough : rounds ≤ limit) :
    closeWithin limit stack = some last := by
  induction rounds generalizing limit stack with
  | zero =>
      obtain rfl : stack = [last] := reached
      cases limit <;> rfl
  | succ rounds ih =>
      obtain ⟨limit, rfl⟩ := Nat.exists_eq_succ_of_ne_zero (Nat.ne_zero_of_lt enough)
      have two := several 0 (Nat.zero_lt_succ rounds)
      match stack with
      | [] => simp at two
      | [_] => simp at two
      | top :: second :: rest =>
          have next : copyTop^[rounds] (copyTop (top :: second :: rest)) = [last] := reached
          apply ih next
          · intro earlier before
            exact several (earlier + 1) (Nat.succ_lt_succ before)
          · exact Nat.le_of_succ_le_succ enough

end Pending

namespace Merkle

variable {ε ν : Type} [TreeNode ε ν] {elements : List ε} {kept : Nat → Prop}
  {stack : List (Pending ε ν)} {pending : Pending ε ν}

open Pending

/-! ### Digits -/

/-- The lowest digit of a number and the digits above it. -/
theorem bitIndices_mul_pow (half height : Nat) :
    ((2 * half + 1) * 2 ^ height).bitIndices = height :: (2 * half * 2 ^ height).bitIndices := by
  rw [Nat.mul_comm, Nat.bitIndices_two_pow_mul, Nat.bitIndices_two_mul_add_one, Nat.mul_comm (2 * half),
    Nat.bitIndices_two_pow_mul, Nat.bitIndices_two_mul]
  simp

/-- The subtrees have the sizes of the binary digits, the lowest digit on top. -/
theorem Stacked.map_leaves {total : Nat} (stacked : Stacked elements kept total stack) :
    stack.map (·.leaves) = total.bitIndices.map (2 ^ ·) := by
  induction stack generalizing total with
  | nil =>
      obtain rfl : total = 0 := stacked
      simp
  | cons top rest ih =>
      obtain ⟨height, half, rfl, covers, lower⟩ := stacked
      rw [bitIndices_mul_pow, List.map_cons, List.map_cons, covers.size, ih lower]

theorem Stacked.sum_leaves {total : Nat} (stacked : Stacked elements kept total stack) :
    (stack.map (·.leaves)).sum = total := by
  rw [stacked.map_leaves]
  exact Nat.sum_map_two_pow_bitIndices total

theorem Stacked.descending {total : Nat} (stacked : Stacked elements kept total stack) :
    (stack.reverse.map (·.leaves)).Pairwise (· > ·) := by
  have digits : total.bitIndices.Pairwise (· < ·) := Nat.bitIndices_sorted.pairwise
  rw [List.map_reverse, stacked.map_leaves, List.pairwise_reverse, List.pairwise_map]
  apply digits.imp
  intro lower higher order
  exact Nat.pow_lt_pow_right Nat.one_lt_two order

theorem Stacked.mem_leaves_iff {total : Nat} (stacked : Stacked elements kept total stack) (size : Nat) :
    size ∈ stack.map (·.leaves) ↔ ∃ digit, total.testBit digit = true ∧ size = 2 ^ digit := by
  simp only [stacked.map_leaves, List.mem_map, Nat.mem_bitIndices]
  constructor
  · intro ⟨digit, isOne, same⟩
    exact ⟨digit, isOne, same.symm⟩
  · intro ⟨digit, isOne, same⟩
    exact ⟨digit, isOne, same.symm⟩

/-- No subtree has more leaves than the number has. -/
theorem Stacked.leaves_le {total : Nat} (stacked : Stacked elements kept total stack)
    (member : pending ∈ stack) : ∃ height, pending.leaves = 2 ^ height ∧ 2 ^ height ≤ total := by
  have size : pending.leaves ∈ stack.map (·.leaves) := List.mem_map_of_mem member
  rw [stacked.map_leaves] at size
  obtain ⟨height, digit, same⟩ := List.mem_map.1 size
  exact ⟨height, same.symm, Nat.two_pow_le_of_mem_bitIndices digit⟩

/-- A number up to a power of two has no more digits than the exponent. -/
theorem length_bitIndices_le {total limit : Nat} (positive : 0 < limit) (few : total ≤ 2 ^ limit) :
    total.bitIndices.length ≤ limit := by
  rcases Nat.eq_or_lt_of_le few with rfl | less
  · rw [Nat.bitIndices_two_pow]
    exact positive
  · have digits : total.bitIndices ⊆ List.range limit := by
      intro digit member
      have fits := Nat.two_pow_le_of_mem_bitIndices member
      rw [List.mem_range]
      exact (Nat.pow_lt_pow_iff_right Nat.one_lt_two).1 (Nat.lt_of_le_of_lt fits less)
    have count := (Nat.bitIndices_nodup.subperm digits).length_le
    rwa [List.length_range] at count

/-! ### Slices -/

/-- A subtree is the perfect tree over the elements from a position on, as many as it has leaves, with the
branches of exactly those of their positions that are kept. -/
structure IsSlice (elements : List ε) (kept : Nat → Prop) (start : Nat) (pending : Pending ε ν) : Prop where
  inside : start + pending.leaves ≤ elements.length
  root : ∃ height, pending.leaves = 2 ^ height ∧
    perfectRoot? height (((leaves elements).drop start).take pending.leaves) = some pending.node
  positions : ∀ position, position ∈ pending.positions ↔
    start ≤ position ∧ position < start + pending.leaves ∧ kept position

/-- A node of the plain tree with all its leaves is the root of the perfect tree over them. -/
theorem perfectRoot?_of_level {nodes : List ν} {height place : Nat} {node : ν}
    (found : (level nodes height)[place]? = some node)
    (full : place * 2 ^ height + 2 ^ height ≤ nodes.length) :
    perfectRoot? height ((nodes.drop (place * 2 ^ height)).take (2 ^ height)) = some node := by
  have before : (nodes.take (place * 2 ^ height)).length = place * 2 ^ height := by
    rw [List.length_take, Nat.min_eq_left (Nat.le_of_add_right_le full)]
  have width : ((nodes.drop (place * 2 ^ height)).take (2 ^ height)).length = 2 ^ height := by
    rw [List.length_take, List.length_drop, Nat.min_eq_left (Nat.le_sub_of_add_le' full)]
  have places : (level (nodes.take (place * 2 ^ height)) (0 + height)).length = place :=
    length_level_add before
  obtain ⟨root, isRoot, single⟩ := exists_perfectRoot?_eq width
  have split := level_append before (nodes.drop (place * 2 ^ height))
  rw [List.take_append_drop, ← List.take_append_drop (2 ^ height) (nodes.drop (place * 2 ^ height)),
    level_append (by rw [width, Nat.one_mul]), single] at split
  rw [Nat.zero_add] at places
  rw [split, List.getElem?_append_right (Nat.le_of_eq places), places, Nat.sub_self] at found
  rw [isRoot]
  exact found

theorem Covers.isSlice {height place : Nat} (covers : Covers elements kept height place pending)
    (full : place * 2 ^ height + 2 ^ height ≤ elements.length) :
    IsSlice elements kept (place * 2 ^ height) pending where
  inside := by rwa [covers.size]
  root := by
    refine ⟨height, covers.size, ?_⟩
    rw [covers.size]
    exact perfectRoot?_of_level covers.node (by rwa [length_leaves])
  positions := by
    intro position
    have above := Nat.two_pow_pos height
    have below_iff : position / 2 ^ height = place ↔
        place * 2 ^ height ≤ position ∧ position < place * 2 ^ height + 2 ^ height := by
      rw [Nat.div_eq_iff above]
      omega
    rw [covers.size, ← and_assoc, ← below_iff]
    simp only [Pending.positions, List.mem_map, Prod.exists, exists_and_right, exists_eq_right]
    constructor
    · rintro ⟨branch, member⟩
      obtain ⟨below, isKept, _⟩ := covers.branches.sound position branch member
      exact ⟨below, isKept⟩
    · rintro ⟨below, isKept⟩
      exact covers.branches.complete position below isKept

/-- The subtrees cut the elements into slices, the topmost one last. -/
theorem Stacked.isSlice {total : Nat} {above below : List (Pending ε ν)}
    (stacked : Stacked elements kept total (above ++ pending :: below)) (inside : total ≤ elements.length) :
    IsSlice elements kept (below.map (·.leaves)).sum pending := by
  induction above generalizing total with
  | nil =>
      obtain ⟨height, half, rfl, covers, lower⟩ := stacked
      rw [lower.sum_leaves]
      apply covers.isSlice
      rwa [Nat.add_mul, Nat.one_mul] at inside
  | cons top above ih =>
      obtain ⟨height, half, rfl, covers, lower⟩ := stacked
      apply ih lower
      exact Nat.le_trans (Nat.mul_le_mul_right _ (Nat.le_succ _)) inside

/-! ### Taking in leaves -/

section

variable {calls : List (TreeCall ε)}

/-- The positions of the branches in a builder, from the first subtree to the last. -/
def heldPositions (builder : TreeBuilder ε ν) : List Nat := builder.stack.reverse.flatMap Pending.positions

/-- The positions of the branches ascend, and their leaves have been inserted. -/
structure Ascending (builder : TreeBuilder ε ν) : Prop where
  pairwise : (heldPositions builder).Pairwise (· < ·)
  inserted : ∀ position ∈ heldPositions builder, position < builder.inserted

theorem Ascending.attempt {builder : TreeBuilder ε ν} (ascending : Ascending builder) (call : TreeCall ε) :
    Ascending (builder.attempt call).1 := by
  cases call with
  | register positions => exact ⟨ascending.pairwise, ascending.inserted⟩
  | insert element position =>
      by_cases next : position = builder.inserted
      · subst next
        rw [TreeBuilder.attempt, TreeBuilder.insert, if_pos rfl]
        constructor
        · rw [heldPositions, flatMap_positions_push, ← heldPositions]
          split
          · simp only [Pending.positions, List.map_cons, List.map_nil, List.pairwise_append,
              List.pairwise_singleton, List.mem_singleton, true_and]
            refine ⟨ascending.pairwise, ?_⟩
            rintro position member _ rfl
            exact ascending.inserted position member
          · simpa [Pending.positions] using ascending.pairwise
        · intro position member
          rw [heldPositions, flatMap_positions_push, ← heldPositions] at member
          rcases List.mem_append.1 member with old | new
          · exact Nat.lt_succ_of_lt (ascending.inserted position old)
          · split at new
            · simp [Pending.positions] at new
              simp [new]
            · simp [Pending.positions] at new
      · rw [TreeBuilder.attempt_insert_of_ne next]
        exact ascending

theorem Ascending.after {builder : TreeBuilder ε ν} (ascending : Ascending builder)
    (calls : List (TreeCall ε)) : Ascending (builder.after calls) := by
  induction calls generalizing builder with
  | nil => exact ascending
  | cons call rest ih => exact ih (ascending.attempt call)

omit [TreeNode ε ν] in
theorem ascending_empty : Ascending (TreeBuilder.empty : TreeBuilder ε ν) := by
  constructor <;> simp [heldPositions, TreeBuilder.empty]

omit [TreeNode ε ν] in
/-- In every single subtree the positions ascend as well. -/
theorem Ascending.positions {builder : TreeBuilder ε ν} (ascending : Ascending builder)
    (member : pending ∈ builder.stack) : pending.positions.Pairwise (· < ·) :=
  (List.pairwise_flatMap.1 ascending.pairwise).1 pending (List.mem_reverse.2 member)

theorem stacked_after (calls : List (TreeCall ε)) :
    Stacked (taken calls) (InTime (admitted 0 calls)) (taken calls).length
      (TreeBuilder.empty.after calls : TreeBuilder ε ν).stack := by
  have inOrder : insertions (admitted 0 calls) = (taken calls).zipIdx := insertions_admitted 0 calls
  have start : Stacked (taken calls) (InTime (admitted 0 calls)) (TreeBuilder.empty : TreeBuilder ε ν).inserted
      (TreeBuilder.empty : TreeBuilder ε ν).stack := rfl
  obtain ⟨full, run, _, count, stacked⟩ := run_stacked inOrder (List.nil_append _).symm rfl rfl start
  have same := (run_admitted (TreeBuilder.empty : TreeBuilder ε ν) calls).1
  obtain rfl : full = TreeBuilder.empty.after calls := Except.ok.inj (run.symm.trans same)
  rw [count] at stacked
  exact stacked

end

/-! ### Closing -/

section

variable {height : Nat}

/-- The leaves with their copies are never more than those of the finished tree. -/
theorem length_level_mul_pow_le (below : height ≤ Nat.clog 2 elements.length) :
    (level (leaves elements : List ν) height).length * 2 ^ height ≤ 2 ^ Nat.clog 2 elements.length := by
  have whole : 2 ^ (Nat.clog 2 elements.length - height) * 2 ^ height = 2 ^ Nat.clog 2 elements.length := by
    rw [← Nat.pow_add, Nat.sub_add_cancel below]
  rw [← whole]
  apply Nat.mul_le_mul_right
  rw [length_level_le_iff, length_leaves, whole]
  exact Nat.le_pow_clog Nat.one_lt_two _

/-- The rounds of closing: the stack stands for a number of leaves all the time, at least two subtrees are on
it in every round, and a single one is left. -/
theorem Stacked.exists_rounds (nonempty : 0 < elements.length)
    (bounded : ∀ position, kept position → position < elements.length)
    (stacked : Stacked elements kept
      ((level (leaves elements : List ν) height).length * 2 ^ height) stack)
    (below : ∀ lower < height, 1 < (level (leaves elements : List ν) lower).length) :
    ∃ rounds last, height + rounds ≤ Nat.clog 2 elements.length ∧ copyTop^[rounds] stack = [last] ∧
      (∀ earlier < rounds, 2 ≤ (copyTop^[earlier] stack).length) ∧
      ∀ earlier ≤ rounds, ∃ total ≤ 2 ^ Nat.clog 2 elements.length,
        Stacked elements kept total (copyTop^[earlier] stack) := by
  -- The level of the topmost subtree moves up in every round, at most to that of the root.
  induction distance : Nat.clog 2 elements.length - height using Nat.strongRecOn
    generalizing height stack with
  | ind distance ih =>
      have least := le_clog_of_below below
      rw [length_leaves] at least
      have now : ∃ total ≤ 2 ^ Nat.clog 2 elements.length, Stacked elements kept total stack :=
        ⟨_, length_level_mul_pow_le least, stacked⟩
      match stack with
      | [] => exact absurd stacked (not_stacked_nil nonempty)
      | [last] =>
          refine ⟨0, last, least, rfl, ?_, ?_⟩
          · intro earlier none
            exact absurd none (Nat.not_lt_zero _)
          · intro earlier first
            obtain rfl := Nat.le_zero.1 first
            exact now
      | top :: second :: rest =>
          obtain ⟨higher, above, wide, next⟩ := stacked.copy bounded below
          have most := le_clog_of_below wide
          rw [length_leaves] at most
          obtain ⟨rounds, last, count, reached, several, each⟩ := ih _ (by omega) next wide rfl
          refine ⟨rounds + 1, last, by omega, reached, ?_, ?_⟩
          · intro earlier before
            cases earlier with
            | zero => simp
            | succ earlier => exact several earlier (Nat.lt_of_succ_lt_succ before)
          · intro earlier before
            cases earlier with
            | zero => exact now
            | succ earlier => exact each earlier (Nat.le_of_succ_le_succ before)

end

/-! ### The stack after any calls -/

/-- The stack is the binary representation of the number of leaves: the sizes of the subtrees, in the order of
their leaves, are the powers of two of its digits, and each subtree stands for the elements that follow those
of the subtrees below it. -/
structure Counts (calls : List (TreeCall ε)) (builder : TreeBuilder ε ν) : Prop where
  inserted : builder.inserted = (taken calls).length
  descending : (builder.stack.reverse.map (·.leaves)).Pairwise (· > ·)
  digits : ∀ size, size ∈ builder.stack.map (·.leaves) ↔
    ∃ digit, builder.inserted.testBit digit = true ∧ size = 2 ^ digit
  length_eq : builder.stack.length = builder.inserted.bitIndices.length
  length_le : builder.stack.length ≤ 32
  slices : ∀ above pending below, builder.stack = above ++ pending :: below →
    IsSlice (taken calls) (RegisteredBefore ν calls) (below.map (·.leaves)).sum pending
  ascending : ∀ pending ∈ builder.stack, pending.positions.Pairwise (· < ·)
  /-- One more leaf can be counted, unless there are as many as positions of 32 bits can tell apart. -/
  sums : builder.inserted < 2 ^ (32 : Nat) → ∀ node branches,
    ∀ sum ∈ Pending.sums builder.stack ⟨node, 1, branches⟩, sum ≤ 2 ^ (32 : Nat)

/-- The rounds in which a tree is closed. A copy is made only where there are two subtrees or more, and the
root is taken where there is one, so that neither finds an empty stack. -/
structure Closing (builder : TreeBuilder ε ν) (rounds : Nat) (root : Pending ε ν) : Prop where
  rounds_le : rounds ≤ 32
  several : ∀ earlier < rounds, 2 ≤ (copyTop^[earlier] builder.stack).length
  reached : copyTop^[rounds] builder.stack = [root]
  descending : ∀ earlier ≤ rounds,
    ((copyTop^[earlier] builder.stack).reverse.map (·.leaves)).Pairwise (· > ·)
  powers : ∀ earlier ≤ rounds, ∀ pending ∈ copyTop^[earlier] builder.stack,
    ∃ height ≤ 32, pending.leaves = 2 ^ height
  sums : ∀ earlier < rounds, ∀ top rest, copyTop^[earlier] builder.stack = top :: rest →
    ∀ sum ∈ Pending.sums (top :: rest) top.duplicate, sum ≤ 2 ^ (32 : Nat)
  closed : builder.close =
    .ok ⟨root.node, builder.inserted, root.leaves, root.branches, builder.registered⟩

section

variable {calls : List (TreeCall ε)}

theorem Stacked.leaves_le_of_le {total limit : Nat} (stacked : Stacked elements kept total stack)
    (few : total ≤ 2 ^ limit) (member : pending ∈ stack) :
    ∃ height ≤ limit, pending.leaves = 2 ^ height := by
  obtain ⟨height, size, fits⟩ := stacked.leaves_le member
  exact ⟨height, (Nat.pow_le_pow_iff_right Nat.one_lt_two).1 (Nat.le_trans fits few), size⟩

/-- What is added up on the way to a stack of few leaves is small. -/
theorem sums_le {total limit : Nat} {above : List (Pending ε ν)}
    (pushed : Stacked elements kept total (push above pending)) (few : total ≤ 2 ^ limit) :
    ∀ sum ∈ Pending.sums above pending, sum ≤ 2 ^ limit := by
  intro sum member
  have most := le_of_mem_sums member
  rw [← sum_leaves_push, pushed.sum_leaves] at most
  exact Nat.le_trans most few

/-- What is added up when a single leaf comes is small as well, whatever the leaf is. -/
theorem Stacked.sums_leaf {total limit : Nat} (stacked : Stacked elements kept total stack)
    (few : total < 2 ^ limit) (node : ν) (branches : List (Nat × Branch ε ν)) :
    ∀ sum ∈ Pending.sums stack ⟨node, 1, branches⟩, sum ≤ 2 ^ limit := by
  intro sum member
  have most := le_of_mem_sums member
  rw [stacked.sum_leaves] at most
  exact Nat.le_trans most few

theorem counts_after (calls : List (TreeCall ε)) (few : (taken calls).length ≤ 2 ^ (32 : Nat)) :
    Counts calls (TreeBuilder.empty.after calls : TreeBuilder ε ν) := by
  have stacked : Stacked (taken calls) (InTime (admitted 0 calls)) (taken calls).length
      (TreeBuilder.empty.after calls : TreeBuilder ε ν).stack := stacked_after calls
  have inserted : (TreeBuilder.empty.after calls : TreeBuilder ε ν).inserted = (taken calls).length :=
    inserted_after calls
  have count := congrArg List.length stacked.map_leaves
  simp only [List.length_map] at count
  refine ⟨inserted, stacked.descending, ?_, ?_, ?_, ?_, ?_, ?_⟩
  · rw [inserted]
    exact stacked.mem_leaves_iff
  · rw [inserted]
    exact count
  · rw [count]
    exact length_bitIndices_le (Nat.succ_pos 31) few
  · intro above pending below split
    rw [split] at stacked
    have slice := stacked.isSlice (Nat.le_refl _)
    refine ⟨slice.inside, slice.root, ?_⟩
    intro position
    rw [slice.positions]
    have fits := slice.inside
    rw [inTime_admitted_iff (ν := ν)]
    constructor
    · intro ⟨first, last, _, registered⟩
      exact ⟨first, last, registered⟩
    · intro ⟨first, last, registered⟩
      exact ⟨first, last, Nat.lt_of_lt_of_le last fits, registered⟩
  · exact fun pending member => (ascending_empty.after calls).positions member
  · intro less node branches
    rw [inserted] at less
    exact stacked.sums_leaf less node branches

theorem exists_closing (calls : List (TreeCall ε)) (few : (taken calls).length ≤ 2 ^ (32 : Nat))
    (nonempty : 0 < (taken calls).length) :
    ∃ rounds root, Closing (TreeBuilder.empty.after calls : TreeBuilder ε ν) rounds root := by
  have stacked : Stacked (taken calls) (InTime (admitted 0 calls))
      ((level (leaves (taken calls) : List ν) 0).length * 2 ^ 0)
      (TreeBuilder.empty.after calls : TreeBuilder ε ν).stack := by
    simpa using stacked_after calls
  have bounded : ∀ position, InTime (admitted 0 calls) position → position < (taken calls).length :=
    fun position inTime => ((inTime_admitted_iff (ν := ν)).1 inTime).1
  obtain ⟨rounds, root, most, reached, several, each⟩ := stacked.exists_rounds nonempty bounded (by simp)
  rw [Nat.zero_add] at most
  have small : Nat.clog 2 (taken calls).length ≤ 32 := Nat.clog_le_of_le_pow few
  have padded : 2 ^ Nat.clog 2 (taken calls).length ≤ 2 ^ (32 : Nat) :=
    Nat.pow_le_pow_right Nat.two_pos small
  have enough : rounds ≤ (TreeBuilder.empty.after calls : TreeBuilder ε ν).inserted.log2 + 1 := by
    rw [inserted_after]
    apply Nat.le_trans most
    apply Nat.clog_le_of_le_pow
    exact Nat.le_of_lt Nat.lt_log2_self
  refine ⟨rounds, root, Nat.le_trans most small, several, reached, ?_, ?_, ?_, ?_⟩
  · intro earlier before
    obtain ⟨total, _, here⟩ := each earlier before
    exact here.descending
  · intro earlier before pending member
    obtain ⟨total, fits, here⟩ := each earlier before
    exact here.leaves_le_of_le (Nat.le_trans fits padded) member
  · intro earlier before top rest found
    obtain ⟨total, fits, next⟩ := each (earlier + 1) before
    rw [Function.iterate_succ_apply', found] at next
    exact sums_le next (Nat.le_trans fits padded)
  · rw [TreeBuilder.close, closeWithin_of_rounds reached several enough]

/-- After any calls, refused ones among them, the stack is the binary representation of the number of leaves,
and no number of leaves outgrows the number of positions. Without leaves a tree is not closed; with leaves it
is, in rounds each of which leaves the stack a binary representation. -/
theorem counts_of_calls (calls : List (TreeCall ε)) (few : (taken calls).length ≤ 2 ^ (32 : Nat)) :
    Counts calls (TreeBuilder.empty.after calls : TreeBuilder ε ν) ∧
      ((taken calls).length = 0 →
        (TreeBuilder.empty.after calls : TreeBuilder ε ν).close = .error (.tree .noLeaves)) ∧
      (0 < (taken calls).length →
        ∃ rounds root, Closing (TreeBuilder.empty.after calls : TreeBuilder ε ν) rounds root) := by
  refine ⟨counts_after calls few, ?_, exists_closing calls few⟩
  intro none
  have noLeaves := (stacked_after (ν := ν) calls).map_leaves
  rw [none, Nat.bitIndices_zero, List.map_nil, List.map_eq_nil_iff] at noLeaves
  rw [TreeBuilder.close, noLeaves]
  rfl

theorem counts_of_three_calls :
    (taken threeCalls).length ≤ 2 ^ (32 : Nat) ∧ 0 < (taken threeCalls).length ∧
      Counts threeCalls (TreeBuilder.empty.after threeCalls : DatasetBuilder) ∧
      ∃ rounds root, Closing (TreeBuilder.empty.after threeCalls : DatasetBuilder) rounds root := by
  have few : (taken threeCalls).length ≤ 2 ^ (32 : Nat) := by decide
  have nonempty : 0 < (taken threeCalls).length := by decide
  obtain ⟨counts, _, closing⟩ := counts_of_calls (ν := DatasetNode) threeCalls few
  exact ⟨few, nonempty, counts, closing nonempty⟩

end

end Merkle

end MiningPool
