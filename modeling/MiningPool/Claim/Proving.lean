/-
Module: MiningPool.Claim.Proving
Purpose: gathering what the proof for an audited share needs.
Main exports: Proving.Phase, Proving.start, Proving.activity
-/
import MiningPool.Dataset.Locator
import MiningPool.Dataset.Reader
import MiningPool.Effect.Collaborators

/-!
The branch of the share is made first. Then the proof-of-work scheme is asked for the dataset words of the
share and for the seed of its epoch, and the dataset file of that seed is read. The first failure ends the
work. All of this is done in a task of its own, which is taken to run to its end: it neither panics nor is
cancelled on the way.
-/

namespace MiningPool.Proving

/-- What is still being waited for. -/
inductive Phase where
  | indices (audited : AuditedShare)
  | seed (audited : AuditedShare) (indices : List Nat)
  | dataset (audited : AuditedShare) (indices : List Nat) (path : String)

/-- Selects the share at a position. -/
def start (claim : Claim) (index : Nat) : Except Error Phase :=
  (AuditedShare.select claim index).map .indices

def await : Phase → Await pool
  | .indices audited => .ask (.verificationIndices audited.share)
  | .seed audited _ => .ask (.seedHash audited.share.header.number.toNat)
  | .dataset _ _ path => .ask (.fileContent path)

/-- The step after the dataset words of the share have been asked for. -/
def located (audited : AuditedShare) :
    Except Error (List Nat) → Phase ⊕ Except Error VerificationProof
  | .error error => .inr (.error error)
  | .ok indices => .inl (.seed audited indices)

/-- The step after the seed of the epoch has been asked for. -/
def seeded (datasets : DatasetLocator) (audited : AuditedShare) (indices : List Nat) :
    Except Error Hash256 → Phase ⊕ Except Error VerificationProof
  | .error error => .inr (.error error)
  | .ok seed => .inl (.dataset audited indices (datasets.pathFor seed))

/-- What comes of the content of the dataset file. -/
def finish (audited : AuditedShare) (indices : List Nat) :
    Except Error (List UInt8) → Except Error VerificationProof
  | .error error => .error error
  | .ok content => DatasetTree.ofContent indices content >>= VerificationProof.assemble audited

def resume (datasets : DatasetLocator) :
    (phase : Phase) → (await phase).Reply → Phase ⊕ Except Error VerificationProof
  | .indices audited, outcome => located audited outcome
  | .seed audited indices, outcome => seeded datasets audited indices outcome
  | .dataset audited indices _, outcome => .inr (finish audited indices outcome)

/-- Gathering on its own. -/
def activity (datasets : DatasetLocator) : Activity pool Unit Phase (Except Error VerificationProof) where
  await := await
  resume _ _ phase reply := ((), resume datasets phase reply)

end MiningPool.Proving
