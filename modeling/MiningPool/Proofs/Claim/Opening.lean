/-
Module: MiningPool.Proofs.Claim.Opening
Purpose: a proof for a share of a claim opens the summary of the claim.
Main exports: AuditedShare.of_select_eq_ok, VerificationProof.of_assemble_eq_ok,
  VerificationProof.opens_of_assemble
-/
import MiningPool.Proofs.Block.Header
import MiningPool.Proofs.Claim.Recompute
import MiningPool.Proofs.Claim.Tree

/-!
Summary and proof are made of two trees over the same shares, one without branches and one with the
branch of the audited position. Both are the plain tree, so the climb from the share ends in the node
that the summary gives.
-/

namespace MiningPool

/-! ### The time stamp in a header -/

theorem VerificationProof.start?_eq {proof : VerificationProof} {share : Share}
    (encodable : share.header.Encodable) (header : proof.encodedHeader = share.header.encode)
    (nonce : proof.nonce = share.nonce.toNat) :
    proof.start? = some (RangeNode.ofShare share) := by
  have timestamp : proof.timestamp? = some share.header.timestamp.toNat := by
    rw [timestamp?, header, BlockHeader.decode?_encode encodable]
    simp [BlockHeader.fields, natBE_minimalBE]
  simp only [start?, timestamp, header, nonce, Option.map_some]
  rfl

/-! ### The audited share and its branch -/

theorem AuditedShare.of_select_eq_ok {claim : Claim} {index : Nat} {audited : AuditedShare}
    (selected : select claim index = .ok audited) :
    claim.sorted.shares[index]? = some audited.share ∧ audited.position = index ∧
      claim.sorted.tree (some index) = .ok audited.tree := by
  rw [select] at selected
  split at selected
  · cases selected
  · rename_i share found
    split at selected
    · cases built : claim.sorted.tree (some index) with
      | error error => simp [built, bind, Except.bind] at selected
      | ok tree =>
          simp only [built, bind, Except.bind] at selected
          split at selected
          · cases selected
          · cases selected
            exact ⟨found, rfl, rfl⟩
    · cases selected

theorem AuditedShare.select_eq_ok {claim : Claim} {index : Nat} {share : Share} {tree : ShareTree}
    {branch : Branch Share RangeNode} (found : claim.sorted.shares[index]? = some share)
    (small : index < 2 ^ (32 : Nat)) (built : claim.sorted.tree (some index) = .ok tree)
    (branchFound : tree.branch index = .ok branch) (root : branch.computeRoot = tree.root) :
    select claim index = .ok ⟨share, index, tree⟩ := by
  have checked : checkBranch tree index = .ok () := by
    rw [checkBranch, branchFound]
    exact if_pos root
  simp only [select, found, if_pos small, built, checked, bind, Except.bind]

namespace ShareTree

/-- With a single registered position, the branches of the tree are those of the position. -/
theorem branches_of_single {tree : ShareTree} {position : Nat} {branch : Branch Share RangeNode}
    (single : tree.registered = [position]) (found : tree.branch position = .ok branch) :
    tree.counterBranch = .ok (countersFrom position branch.siblings) ∧
      tree.hashBranch = .ok (branch.siblings.map (·.node.hash.pad)) := by
  have branches : tree.registeredBranches = .ok [branch] := by
    simp [Tree.registeredBranches, single, found, bind, Except.bind, pure, Except.pure]
  simp [counterBranch, hashBranch, branches, single, bind, Except.bind]

end ShareTree

namespace VerificationProof

theorem of_assemble_eq_ok {audited : AuditedShare} {dataset : DatasetTree}
    {proof : VerificationProof} (assembled : assemble audited dataset = .ok proof) :
    proof.encodedHeader = audited.share.header.encode ∧
      proof.nonce = audited.share.nonce.toNat ∧ proof.shareIndex = audited.position ∧
      audited.tree.counterBranch.map (·.map FixedBytes.toNat) = .ok proof.counterBranch ∧
      audited.tree.hashBranch.map (·.map FixedBytes.toNat) = .ok proof.hashBranch := by
  simp only [assemble, bind, Except.bind] at assembled
  split at assembled
  · cases assembled
  split at assembled
  · cases assembled
  split at assembled
  · cases assembled
  split at assembled
  · cases assembled
  split at assembled
  · cases assembled
  rename_i counters countersEq _ hashes hashesEq
  cases assembled
  rw [countersEq, hashesEq]
  exact ⟨rfl, rfl, rfl, rfl, rfl⟩

/-- From a share in the order of the counters, its path leads to the root. -/
theorem climbFrom_eq_root {claim : Claim} {index : Nat} {share : Share} {path : Path RangeNode}
    {root : RangeNode} (found : claim.sorted.shares[index]? = some share)
    (isPath : Merkle.AuthPath (Merkle.leaves claim.sorted.shares) index (Nat.clog 2 claim.size) path)
    (isRoot : Merkle.level (Merkle.leaves claim.sorted.shares) (Nat.clog 2 claim.size) = [root]) :
    climbFrom index 0 (RangeNode.ofShare share) (ShareTree.pathCounters index path)
      (ShareTree.pathHashes path) = root := by
  have bottom : (Merkle.leaves claim.sorted.shares)[index]? = some (RangeNode.ofShare share) := by
    simp only [Merkle.leaves, List.getElem?_map, found, Option.map_some]
    rfl
  have inside : index < claim.size :=
    claim.size_sorted ▸ (List.getElem?_eq_some_iff.1 found).1
  have climbed := ShareTree.climbFrom_authPath (Claim.ordered_leaves claim.inOrder_sorted)
    (Claim.bounded_leaves _) bottom isPath
  rw [isRoot, Merkle.div_pow_clog inside, List.getElem?_cons_zero, Option.some.injEq] at climbed
  exact climbed.symm

/-- A proof made for a share of a claim opens the summary of the claim. -/
theorem opens_of_assemble {claim : Claim} {index : Nat} {audited : AuditedShare}
    {dataset : DatasetTree} {proof : VerificationProof} {summary : ClaimSummary}
    (encodable : ∀ share ∈ claim.shares, share.header.Encodable)
    (summarized : claim.summary = .ok summary)
    (selected : AuditedShare.select claim index = .ok audited)
    (assembled : assemble audited dataset = .ok proof) : proof.Opens summary := by
  obtain ⟨nonempty, few, count, root⟩ := Claim.of_summary_eq_ok summarized
  obtain ⟨found, position, built⟩ := AuditedShare.of_select_eq_ok selected
  obtain ⟨header, nonce, shareIndex, counters, hashes⟩ := of_assemble_eq_ok assembled
  have sortedNonempty : 0 < claim.sorted.size := by simpa using nonempty
  have sortedFew : claim.sorted.size ≤ 2 ^ (32 : Nat) := by simpa using few
  obtain ⟨tree, treeBuilt, registered, complete⟩ :=
    Claim.tree_eq_ok sortedNonempty sortedFew (some index)
  rw [treeBuilt] at built
  cases built
  have size : claim.sorted.shares.length = claim.size := claim.size_sorted
  have inside : index < claim.sorted.shares.length := (List.getElem?_eq_some_iff.1 found).1
  obtain ⟨branch, branchFound, isBranch⟩ :=
    complete.branch inside ⟨inside, by simp⟩ (by simp [registered])
  obtain ⟨treeCounters, treeHashes⟩ := ShareTree.branches_of_single registered branchFound
  rw [treeCounters] at counters
  rw [treeHashes] at hashes
  have proofCounters : proof.counterBranch = ShareTree.pathCounters index branch.path :=
    (Except.ok.inj counters).symm
  have proofHashes : proof.hashBranch = ShareTree.pathHashes branch.path :=
    (Except.ok.inj hashes).symm
  have member : audited.share ∈ claim.shares :=
    claim.perm_sorted.mem_iff.1 (List.mem_of_getElem? found)
  have path : Merkle.AuthPath (Merkle.leaves claim.sorted.shares) index (Nat.clog 2 claim.size)
      branch.path := size ▸ isBranch.path
  refine ⟨?_, ?_, ?_, ?_⟩
  · rw [recomputed?, start?_eq (encodable _ member) header nonce, Option.map_some, shareIndex,
      position, proofCounters, proofHashes, climbFrom_eq_root found path root]
  · rw [proofCounters, ShareTree.length_pathCounters, path.length_siblings, count]
  · rw [proofHashes, ShareTree.length_pathHashes, path.length_siblings, count]
  · rw [shareIndex, position, count, ← size]
    exact inside

end VerificationProof

end MiningPool
