/-
Module: MiningPool.Proofs.Claim.Selection
Purpose: every share of a claim can be audited, and proofs fail for want of dataset words only.
Main exports: AuditedShare.exists_select_eq_ok, VerificationProof.of_assemble_eq_error,
  Proving.flaw_of_finish_eq_error
-/
import MiningPool.Claim.Proving
import MiningPool.Proofs.Claim.Opening
import MiningPool.Proofs.Dataset.Flaws
import MiningPool.Proofs.Merkle.Root

/-!
Before branches are used they are checked against the roots of their trees. In trees over shares and over
dataset words alike, every branch passes. What remains is a position that a tree has no leaf for: in a
claim it is refused before the tree is made, in a dataset it is found out with the tree.
-/

namespace MiningPool

namespace AuditedShare

variable {claim : Claim} {index : Nat}

/-- Every position of a claim that is not too large can be audited. -/
theorem exists_select_eq_ok (inside : index < claim.size) (few : claim.size ≤ 2 ^ (32 : Nat)) :
    ∃ audited, select claim index = .ok audited := by
  rw [← claim.size_sorted] at inside few
  obtain ⟨tree, built, registered, complete⟩ :=
    Claim.tree_eq_ok (Nat.zero_lt_of_lt inside) few (some index)
  have isRegistered : index ∈ tree.registered := by simp [registered]
  obtain ⟨branch, found, isBranch⟩ :=
    complete.branch inside ⟨inside, List.mem_singleton.2 rfl⟩ isRegistered
  have share : claim.sorted.shares[index]? = some claim.sorted.shares[index] :=
    List.getElem?_eq_getElem inside
  exact ⟨_, select_eq_ok share (Nat.lt_of_lt_of_le inside few) built found
    (complete.computeRoot_of_branch_eq found)⟩

/-- The tree of an audited share has the branch of the share. -/
theorem exists_branches_eq {audited : AuditedShare} (selected : select claim index = .ok audited) :
    ∃ counters hashes, audited.tree.counterBranch = .ok counters ∧
      audited.tree.hashBranch = .ok hashes := by
  obtain ⟨share, _, built⟩ := of_select_eq_ok selected
  have inside : index < claim.sorted.size := (List.getElem?_eq_some_iff.1 share).1
  obtain ⟨tree, sameBuilt, registered, complete⟩ :=
    Claim.tree_eq_ok (Nat.zero_lt_of_lt inside) (Claim.size_le_of_tree built) (some index)
  rw [sameBuilt] at built
  cases built
  have isRegistered : index ∈ audited.tree.registered := by simp [registered]
  obtain ⟨branch, found, _⟩ :=
    complete.branch inside ⟨inside, List.mem_singleton.2 rfl⟩ isRegistered
  obtain ⟨counters, hashes⟩ := ShareTree.branches_of_single registered found
  exact ⟨_, _, counters, hashes⟩

end AuditedShare

namespace VerificationProof

variable {dataset : DatasetTree} {words : List Word} {kept : Nat → Prop}

/-- In the tree over words, all branches are let through. -/
theorem checkBranches_eq_ok {branches : List (Branch Word DatasetNode)}
    (complete : Merkle.Complete words kept dataset)
    (found : dataset.registeredBranches = .ok branches) : checkBranches dataset = .ok () := by
  rw [checkBranches, found]
  apply Merkle.forM_eq_ok
  rintro ⟨position, branch⟩ member
  obtain ⟨_, _, own⟩ := Merkle.exists_of_mapM_eq_ok found branch (List.of_mem_zip member).2
  exact if_pos (complete.computeRoot_of_branch_eq own)

/-- The proof for an audited share fails only if a word is asked for that the dataset does not have. -/
theorem of_assemble_eq_error {claim : Claim} {index : Nat} {audited : AuditedShare} {error : Error}
    (selected : AuditedShare.select claim index = .ok audited)
    (complete : Merkle.Complete words kept dataset)
    (inTime : ∀ position ∈ dataset.registered, position < words.length → kept position)
    (failed : assemble audited dataset = .error error) :
    ∃ position ∈ dataset.registered, words.length ≤ position ∧
      error = .tree (.noBranch position words.length) := by
  cases found : dataset.registeredBranches with
  | error missing =>
      have same : error = missing := by
        simp only [assemble, checkBranches, found, bind, Except.bind] at failed
        cases failed
        rfl
      subst same
      obtain ⟨position, member, none⟩ := Merkle.exists_of_mapM_eq_error found
      exact ⟨position, member, complete.of_branch_eq_error member (inTime position member) none⟩
  | ok branches =>
      have checked := checkBranches_eq_ok complete found
      obtain ⟨counters, hashes, counterBranch, hashBranch⟩ :=
        AuditedShare.exists_branches_eq selected
      simp only [assemble, checked, DatasetTree.words, DatasetTree.branchElements, found,
        counterBranch, hashBranch, bind, Except.bind] at failed
      cases failed

end VerificationProof

/-- With the content of the dataset file at hand, the proof for an audited share fails for a flaw of the
content only. -/
theorem Proving.flaw_of_finish_eq_error {claim : Claim} {index : Nat} {audited : AuditedShare}
    {indices : List Nat} {content : List UInt8} {error : Error}
    (selected : AuditedShare.select claim index = .ok audited)
    (failed : finish audited indices (.ok content) = .error error) :
    DatasetFlaw indices content error := by
  rw [finish] at failed
  rcases DatasetTree.ofContent_cases indices content with
    ⟨flaw, refused, flawed⟩ | ⟨magic, words, dataset, rfl, read, registered, complete⟩
  · rw [refused] at failed
    cases failed
    exact flawed
  · rw [read] at failed
    have assembled : VerificationProof.assemble audited dataset = .error error := failed
    obtain ⟨position, asked, outside, rfl⟩ :=
      VerificationProof.of_assemble_eq_error selected complete
        (fun position asked inside => ⟨inside, registered ▸ asked⟩) assembled
    exact .noWord (registered ▸ asked) outside

end MiningPool
