/-
Module: MiningPool.Effect.Collaborators
Purpose: what the pool asks of the contract, the node, the proof-of-work scheme and the file store.
Main exports: PoolQuery, pool
-/
import MiningPool.Claim.Proof
import MiningPool.Effect.Activity
import MiningPool.Work.Pool

/-!
The contract takes claims and proofs and hands out the randomness for audits. The node gives out block
templates, takes full blocks and hashrates, and knows which transactions are confirmed. The proof-of-work
scheme classifies shares and names the dataset words of a share. The file store holds the datasets.
-/

namespace MiningPool

/-- What the pool asks of others. -/
inductive PoolQuery where
  /-- Commit to a claim; the answer is the transaction. -/
  | submitClaim (summary : ClaimSummary)
  /-- Prove an audited share; the answer is the transaction. -/
  | verifyClaim (proof : VerificationProof)
  /-- The randomness for the latest claim. -/
  | claimSeed
  | getWork
  /-- Whether the node accepts a full block. -/
  | submitWork (nonce : BlockNonce) (powHash mixDigest : Hash256)
  | submitHashrate (rate : Nat) (id : Hash256)
  /-- Whether a transaction is part of the chain. -/
  | isConfirmed (tx : Hash256)
  | solutionState (share : Share)
  /-- The dataset words that a share was hashed with. -/
  | verificationIndices (share : Share)
  /-- The seed of the epoch of a block. -/
  | seedHash (number : Nat)
  /-- The bytes of the file at a path. -/
  | fileContent (path : String)

/-- The type of each answer. -/
def PoolQuery.Answer : PoolQuery → Type
  | submitClaim _ => Hash256
  | verifyClaim _ => Hash256
  | claimSeed => Nat
  | getWork => BlockTemplate
  | submitWork _ _ _ => Bool
  | submitHashrate _ _ => Bool
  | isConfirmed _ => Bool
  | solutionState _ => SolutionState
  | verificationIndices _ => List Nat
  | seedHash _ => Hash256
  | fileContent _ => List UInt8

/-- What the pool asks of others, as an interface. -/
def pool : Interface := ⟨PoolQuery, PoolQuery.Answer⟩

end MiningPool
