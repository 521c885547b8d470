/-
Module: MiningPool.Claim.Proof
Purpose: what the contract is shown of one audited share.
Main exports: VerificationProof, AuditedShare, VerificationProof.assemble
-/
import MiningPool.Claim.Basic
import MiningPool.Dataset.Tree
import MiningPool.Number.Power

/-!
An audit names a position in the counter order of a claim. The proof for the share at that position holds
the encoded header, the nonce, the branch of the share in the tree of the claim, and the dataset words
that the share was hashed with, each with its branch in the tree of the dataset. Branches are checked
against their roots before they are used.
-/

namespace MiningPool

/-- What the contract is shown of one share. -/
structure VerificationProof where
  /-- The encoded header without nonce and mix digest. -/
  encodedHeader : List UInt8
  nonce : Nat
  shareIndex : Nat
  /-- Four integers for every dataset word, in the order of the lookups. -/
  datasetElements : List Nat
  datasetBranch : List Nat
  counterBranch : List Nat
  hashBranch : List Nat
deriving DecidableEq

/-- The share at the audited position of a claim and the tree that has its branch. -/
structure AuditedShare where
  share : Share
  position : Nat
  tree : ShareTree

namespace AuditedShare

/-- The branch of the audited position leads to the root. -/
def checkBranch (tree : ShareTree) (position : Nat) : Except Error Unit := do
  let branch ← tree.branch position
  if branch.computeRoot = tree.root then .ok () else .error (.tree (.claimBranch position))

/-- Finds the share at a position of the counter order. -/
def select (claim : Claim) (index : Nat) : Except Error AuditedShare :=
  let sorted := claim.sorted
  match sorted.shares[index]? with
  | none => .error (.state (.auditOutside index sorted.size))
  | some share =>
    if index < 2 ^ (32 : Nat) then do
      let tree ← sorted.tree (some index)
      checkBranch tree index
      .ok ⟨share, index, tree⟩
    else .error (.state .auditTooLarge)

end AuditedShare

namespace VerificationProof

/-- The branches of all registered positions lead to the root. -/
def checkBranches (tree : DatasetTree) : Except Error Unit := do
  let branches ← tree.registeredBranches
  (tree.registered.zip branches).forM fun (position, branch) =>
    if branch.computeRoot = tree.root then .ok () else .error (.tree (.datasetBranch position))

/-- Puts a proof together from the audited share and the tree of its dataset. -/
def assemble (audited : AuditedShare) (dataset : DatasetTree) : Except Error VerificationProof := do
  checkBranches dataset
  let words ← dataset.words
  let elements ← dataset.branchElements
  let counters ← audited.tree.counterBranch
  let hashes ← audited.tree.hashBranch
  .ok {
    encodedHeader := audited.share.header.encode
    nonce := audited.share.nonce.toNat
    shareIndex := audited.position
    datasetElements := words.flatMap Word.integers
    datasetBranch := elements.map FixedBytes.toNat
    counterBranch := counters.map FixedBytes.toNat
    hashBranch := hashes.map FixedBytes.toNat }

end VerificationProof

end MiningPool
