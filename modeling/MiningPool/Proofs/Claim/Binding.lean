/-
Module: MiningPool.Proofs.Claim.Binding
Purpose: summaries commit to the shares of a claim and to the words of a dataset.
Main exports: RangeNode.binding, Claim.solutions_eq_or_collision, Claim.summaries_bind
-/
import MiningPool.Proofs.Claim.Opening
import MiningPool.Proofs.Dataset.Binding
import MiningPool.Proofs.Dataset.Opening

/-!
The hash of a parent leaves out the greatest counter of its earlier child and the least counter of its later
child. Every child is thus bound by its hash and by one of its counters; for a leaf both counters are the
one of the share, so that one of them is enough. The root is bound by the summary, also where the root is
the only leaf.
-/

namespace MiningPool

/-! ### Shares in a tree -/

instance : HashedNode Share RangeNode where
  hash := RangeNode.hash
  leafInput share := share.header.encode
  parentInput := RangeNode.hashInput
  hash_leaf _ := rfl
  hash_combine _ _ := rfl

namespace RangeNode

/-- One hash and, as far as 32 bytes tell, one least or one greatest counter. -/
structure Same (left right : RangeNode) : Prop where
  hash : left.hash = right.hash
  counter : natPad32 left.min = natPad32 right.min ∨ natPad32 left.max = natPad32 right.max

theorem binding : Merkle.Binding Same where
  hash same := same.hash
  children := by
    intro left right left' right' inputs
    simp only [HashedNode.parentInput, hashInput, List.append_assoc] at inputs
    obtain ⟨least, later⟩ := FixedBytes.append_inj inputs
    obtain ⟨leftHash, later⟩ := FixedBytes.append_inj later
    obtain ⟨greatest, rightHash⟩ := FixedBytes.append_inj later
    have rightHash := FixedBytes.toList_injective rightHash
    exact ⟨⟨NodeHash.pad_injective leftHash, .inl least⟩,
      ⟨NodeHash.pad_injective rightHash, .inr greatest⟩⟩

/-- Leaves of one counter belong to shares of one counter. -/
theorem counter_eq_of_same {left right : Share} (same : Same (ofShare left) (ofShare right)) :
    left.counter = right.counter := by
  have fits : ∀ share : Share, share.counter < 256 ^ (32 : Nat) := fun share =>
    share.counter_lt.trans (by decide)
  have spelled : natPad32 left.counter = natPad32 right.counter := by
    rcases same.counter with least | greatest
    · exact least
    · exact greatest
  rw [← toNat_natPad32 (fits left), spelled, toNat_natPad32 (fits right)]

end RangeNode

namespace Share

/-- What a share is a solution of: a header and a nonce. -/
def solution (share : Share) : BlockHeader × BlockNonce := (share.header, share.nonce)

theorem solution_eq_of_same {left right : Share} (leftEncodable : left.header.Encodable)
    (rightEncodable : right.header.Encodable)
    (same : RangeNode.Same (RangeNode.ofShare left) (RangeNode.ofShare right))
    (encodings : left.header.encode = right.header.encode) : left.solution = right.solution := by
  have headers := BlockHeader.encode_injective leftEncodable rightEncodable encodings
  have counters := RangeNode.counter_eq_of_same same
  rw [counter, counter, headers] at counters
  have nonces : left.nonce = right.nonce := UInt64.toNat_inj.1 (Nat.add_left_cancel counters)
  rw [solution, solution, headers, nonces]

end Share

theorem map_eq_of_forall₂ {α β : Type} {related : α → α → Prop} {left right : List α} {f : α → β}
    (pairs : List.Forall₂ related left right)
    (agree : ∀ own ∈ left, ∀ other ∈ right, related own other → f own = f other) :
    left.map f = right.map f := by
  induction pairs with
  | nil => rfl
  | cons here there ih =>
      rw [List.map_cons, List.map_cons, agree _ List.mem_cons_self _ List.mem_cons_self here,
        ih fun own member other member' => agree own (.tail _ member) other (.tail _ member')]

namespace Claim

open Merkle

/-- The byte strings that are hashed while the claim is summarized. -/
def hashedStrings (claim : Claim) : List (List UInt8) :=
  Merkle.hashedStrings RangeNode claim.sorted.shares

/-- The solutions of a claim in the order of their counters. -/
def solutions (claim : Claim) : List (BlockHeader × BlockNonce) :=
  claim.sorted.shares.map Share.solution

/-- What a summary says of the tree over the shares in the order of their counters. -/
theorem exists_complete_of_summary {claim : Claim} {summary : ClaimSummary}
    (summarized : claim.summary = .ok summary) :
    ∃ (kept : Nat → Prop) (tree : ShareTree), Complete claim.sorted.shares kept tree ∧
      0 < claim.sorted.shares.length ∧ claim.sorted.shares.length = summary.numShares ∧
      tree.root = ⟨summary.minCounter, summary.maxCounter, summary.rootHash⟩ := by
  obtain ⟨nonempty, few, count, root⟩ := of_summary_eq_ok summarized
  have size : claim.sorted.shares.length = claim.size := claim.size_sorted
  rw [← size_sorted] at nonempty few
  obtain ⟨tree, _, _, complete⟩ := tree_eq_ok nonempty few none
  refine ⟨_, tree, complete, nonempty, by rw [size, count], ?_⟩
  have top := complete.root
  rw [size, root, List.cons.injEq] at top
  exact top.1.symm

/-- Claims with one summary have the same solutions in the same order, or two of the strings that were
hashed for their trees collide. -/
theorem solutions_eq_or_collision {left right : Claim}
    (leftEncodable : ∀ share ∈ left.shares, share.header.Encodable)
    (rightEncodable : ∀ share ∈ right.shares, share.header.Encodable) {summary : ClaimSummary}
    (leftSummary : left.summary = .ok summary) (rightSummary : right.summary = .ok summary) :
    left.solutions = right.solutions ∨ Collision (left.hashedStrings ++ right.hashedStrings) := by
  obtain ⟨_, tree, complete, nonempty, leftCount, leftRoot⟩ := exists_complete_of_summary leftSummary
  obtain ⟨_, tree', complete', _, rightCount, rightRoot⟩ := exists_complete_of_summary rightSummary
  have roots : RangeNode.Same tree.root tree'.root := by
    rw [leftRoot, rightRoot]
    exact ⟨rfl, .inl rfl⟩
  rcases forall₂_of_root RangeNode.binding complete complete' nonempty
    (leftCount.trans rightCount.symm) roots with alike | collision
  · left
    apply map_eq_of_forall₂ alike
    intro own ownMember other otherMember pair
    exact Share.solution_eq_of_same (leftEncodable _ (left.perm_sorted.mem_iff.1 ownMember))
      (rightEncodable _ (right.perm_sorted.mem_iff.1 otherMember)) pair.1 pair.2
  · exact .inr collision

theorem leaves_eq_of_solutions {left right : Claim} (same : left.solutions = right.solutions) :
    (leaves left.sorted.shares : List RangeNode) = leaves right.sorted.shares := by
  let leafOf : BlockHeader × BlockNonce → RangeNode := fun (header, nonce) =>
    RangeNode.ofShare (Share.unclassified header 0 nonce (.zero 32))
  have ofSolutions : ∀ claim : Claim,
      (leaves claim.sorted.shares : List RangeNode) = claim.solutions.map leafOf := by
    intro claim
    rw [solutions, List.map_map]
    rfl
  rw [ofSolutions, ofSolutions, same]

/-- Of the shares, the summary depends on nothing but their solutions and their least difficulty. -/
theorem summary_congr {left right : Claim} {summary : ClaimSummary}
    (difficulty : left.minDifficulty = right.minDifficulty) (same : left.solutions = right.solutions)
    (summarized : left.summary = .ok summary) : right.summary = .ok summary := by
  have sizes : left.sorted.size = right.sorted.size := by
    have lengths := congrArg List.length same
    rwa [solutions, solutions, List.length_map, List.length_map] at lengths
  obtain ⟨nonempty, few, _, _⟩ := of_summary_eq_ok summarized
  rw [← size_sorted] at nonempty few
  obtain ⟨tree, built, _, complete⟩ := tree_eq_ok nonempty few none
  obtain ⟨tree', built', _, complete'⟩ := tree_eq_ok (sizes ▸ nonempty) (sizes ▸ few) none
  have roots := complete.root
  rw [leaves_eq_of_solutions same, show left.sorted.shares.length = right.sorted.shares.length from sizes,
    complete'.root, List.cons.injEq] at roots
  rw [size_sorted, size_sorted] at sizes
  rw [← summarized, Claim.summary, Claim.summary, built, built', difficulty, sizes]
  simp only [roots.1]

/-- Summaries are binding. -/
theorem summaries_bind :
    (∀ left right : Claim,
      0 < left.size → left.size < 2 ^ (32 : Nat) → 0 < right.size → right.size < 2 ^ (32 : Nat) →
      (∀ share ∈ left.shares, share.header.Encodable) →
      (∀ share ∈ right.shares, share.header.Encodable) →
      ∃ summary summary', left.summary = .ok summary ∧ right.summary = .ok summary' ∧
        (summary = summary' → left.solutions = right.solutions ∨
          Collision (left.hashedStrings ++ right.hashedStrings))) ∧
    (∀ (left right : List Word) (positions positions' : List Nat),
      0 < left.length → 0 < right.length →
      ∃ tree tree' : DatasetTree, Tree.ofElements positions left = .ok tree ∧
        Tree.ofElements positions' right = .ok tree' ∧
        (tree.summary.root = tree'.summary.root →
          tree.summary.elementCount = tree'.summary.elementCount →
          left = right ∨
            Collision (Merkle.hashedStrings DatasetNode left ++
              Merkle.hashedStrings DatasetNode right))) := by
  constructor
  · intro left right nonempty few nonempty' few' encodable encodable'
    obtain ⟨summary, summarized⟩ := exists_summary_eq nonempty (Nat.le_of_lt few)
    obtain ⟨summary', summarized'⟩ := exists_summary_eq nonempty' (Nat.le_of_lt few')
    refine ⟨summary, summary', summarized, summarized', ?_⟩
    rintro rfl
    exact solutions_eq_or_collision encodable encodable' summarized summarized'
  · intro left right positions positions' nonempty nonempty'
    obtain ⟨tree, built, _, complete⟩ := ofElements_eq_ok (ν := DatasetNode) nonempty positions
    obtain ⟨tree', built', _, complete'⟩ := ofElements_eq_ok (ν := DatasetNode) nonempty' positions'
    exact ⟨tree, tree', built, built', DatasetTree.words_eq_or_collision nonempty complete complete'⟩

/-- A header whose fields are zero. -/
def zeroHeader : BlockHeader :=
  ⟨.zero 32, .zero 32, .zero 20, .zero 32, .zero 32, .zero 32, .zero 256, 0, 0, 0, 0, 0, []⟩

/-- Two shares for one header, with a mix digest. -/
def twoShares (mixDigest : Hash256) : Claim where
  shares := [.unclassified zeroHeader 1 3 mixDigest, .unclassified zeroHeader 2 5 mixDigest]

/-- Two claims that differ in what is not committed to, and the words of a dataset in two orders, with the
branches of different positions. -/
theorem summaries_bind_twoShares :
    (twoShares (.zero 32) ≠ twoShares (.replicate 32 1) ∧
      ∃ summary, (twoShares (.zero 32)).summary = .ok summary ∧
        (twoShares (.replicate 32 1)).summary = .ok summary ∧
        ((twoShares (.zero 32)).solutions = (twoShares (.replicate 32 1)).solutions ∨
          Collision ((twoShares (.zero 32)).hashedStrings ++
            (twoShares (.replicate 32 1)).hashedStrings))) ∧
    DatasetTree.threeWords ≠ DatasetTree.threeWords.reverse ∧
    ∃ tree tree' : DatasetTree, Tree.ofElements [2, 0] DatasetTree.threeWords = .ok tree ∧
      Tree.ofElements [1] DatasetTree.threeWords.reverse = .ok tree' ∧
      (tree.summary.root = tree'.summary.root →
        tree.summary.elementCount = tree'.summary.elementCount →
          DatasetTree.threeWords = DatasetTree.threeWords.reverse ∨
            Collision (Merkle.hashedStrings DatasetNode DatasetTree.threeWords ++
              Merkle.hashedStrings DatasetNode DatasetTree.threeWords.reverse)) := by
  have inOrder : ∀ mixDigest, InOrder (twoShares mixDigest).shares := by
    intro mixDigest
    apply List.pairwise_pair.2
    exact Nat.add_le_add_left (show (3 : UInt64).toNat ≤ (5 : UInt64).toNat by decide) _
  have same : (twoShares (.zero 32)).solutions = (twoShares (.replicate 32 1)).solutions := by
    rw [solutions, solutions, sorted_eq_self (inOrder _), sorted_eq_self (inOrder _)]
    rfl
  have different : twoShares (.zero 32) ≠ twoShares (.replicate 32 1) := by
    intro equal
    have digests := congrArg (fun claim => claim.shares.map (·.mixDigest.toList.head?)) equal
    cases digests
  have difficulty : (twoShares (.zero 32)).minDifficulty =
      (twoShares (.replicate 32 1)).minDifficulty := rfl
  have encodable : ∀ mixDigest, ∀ share ∈ (twoShares mixDigest).shares, share.header.Encodable := by
    have short : zeroHeader.Encodable := by
      unfold BlockHeader.Encodable
      decide +kernel
    intro mixDigest share member
    rcases List.mem_cons.1 member with rfl | member
    · exact short
    · rw [List.mem_singleton.1 member]
      exact short
  have mirrored : DatasetTree.threeWords ≠ DatasetTree.threeWords.reverse := by
    intro equal
    have firstBytes := congrArg (fun words => words.map (·.toList.head?)) equal
    cases firstBytes
  refine ⟨⟨different, ?_⟩, mirrored, summaries_bind.2 _ _ _ _ (by decide) (by decide)⟩
  obtain ⟨summary, summary', summarized, summarized', bound⟩ :=
    summaries_bind.1 (twoShares (.zero 32)) (twoShares (.replicate 32 1)) (by decide) (by decide)
      (by decide) (by decide) (encodable _) (encodable _)
  have one := summary_congr difficulty same summarized
  rw [summarized', Except.ok.injEq] at one
  subst one
  exact ⟨_, summarized, summarized', bound rfl⟩

end Claim

end MiningPool
