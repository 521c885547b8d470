/-
Module: MiningPool.Ledger.Audit
Purpose: proving one share of a submitted claim.
Main exports: Audit.Phase, Verification, Audit.activity
-/
import MiningPool.Claim.Proving
import MiningPool.Ledger.Basic

/-!
Audits run one at a time. An audit picks a claim, waits until its submission is confirmed, settles the
position, makes the proof, submits it, waits until that is confirmed too, and records the claim as
verified. The ledger is held only for the pick and for the record. A failure at any point leaves the
ledger as it is.
-/

namespace MiningPool

/-- A verification that has been confirmed. -/
structure Verification where
  claimNumber : Nat
  shareIndex : Nat
  tx : Hash256
deriving DecidableEq

namespace Audit

/-- How far an audit has come. -/
inductive Phase where
  /-- Waiting for other audits to end. -/
  | entering
  /-- Waiting for the ledger, to pick a claim. -/
  | picking
  /-- Waiting for the submission of the claim to be confirmed. -/
  | confirmingClaim (target : AuditTarget) (watch : Confirmation.Phase)
  /-- Asking the contract for the randomness that settles the position. -/
  | seeding (target : AuditTarget) (retry : Retry.Phase)
  /-- Making the proof. -/
  | proving (target : AuditTarget) (index : Nat) (proving : Proving.Phase)
  /-- Submitting the proof. -/
  | submitting (target : AuditTarget) (index : Nat) (proof : VerificationProof) (retry : Retry.Phase)
  /-- Waiting for the proof to be confirmed. -/
  | confirmingProof (target : AuditTarget) (index : Nat) (tx : Hash256) (watch : Confirmation.Phase)
  /-- Waiting for the ledger, to record the verification. -/
  | recording (target : AuditTarget) (index : Nat) (tx : Hash256)

def await : Phase → Await pool
  | .entering => .lock .audit
  | .picking => .lock .ledger
  | .confirmingClaim target watch => Confirmation.await target.tx watch
  | .seeding _ retry => Retry.await (I := pool) .claimSeed retry
  | .proving _ _ proving => Proving.await proving
  | .submitting _ _ proof retry => Retry.await (I := pool) (.verifyClaim proof) retry
  | .confirmingProof _ _ tx watch => Confirmation.await tx watch
  | .recording _ _ _ => .lock .ledger

/-- What a step leads to; no verification if no claim waits for an audit. -/
abbrev Next := Phase ⊕ Except Error (Option Verification)

/-- Begins the proof for a position. -/
def prove (target : AuditTarget) (index : Nat) : Next :=
  match Proving.start target.claim index with
  | .error error => .inr (.error error)
  | .ok proving => .inl (.proving target index proving)

/-- Settles the position, or asks for what settles it. -/
def choose (settings : LedgerSettings) (target : AuditTarget) : Next :=
  if target.claim.size = 0 then .inr (.error (.state .emptyAudit))
  else
    match settings.auditIndex with
    | none => .inl (.seeding target (Retry.start settings.retry))
    | some index =>
      if index < target.claim.size then prove target index
      else .inr (.error (.state (.auditOutside index target.claim.size)))

/-- The step after the contract has been asked for its randomness. -/
def seeded (target : AuditTarget) : Except Error Nat → Next
  | .error error => .inr (.error error)
  | .ok seed => prove target (seed % target.claim.size)

/-- The step after the contract has been asked to take a proof. -/
def submitted (settings : LedgerSettings) (now : Instant) (target : AuditTarget) (index : Nat) :
    Except Error Hash256 → Next
  | .error error => .inr (.error error)
  | .ok tx => .inl (.confirmingProof target index tx (Confirmation.start settings.confirmation now))

def resume (settings : LedgerSettings) (ledger : Ledger) (now : Instant) :
    (phase : Phase) → (await phase).Reply → Ledger × Next
  | .entering, _ => (ledger, .inl .picking)
  | .picking, _ =>
    match ledger.auditTarget? settings.auditPolicy with
    | none => (ledger, .inr (.ok none))
    | some target =>
      (ledger, .inl (.confirmingClaim target (Confirmation.start settings.confirmation now)))
  | .confirmingClaim target watch, reply =>
    match Confirmation.resume settings.confirmation target.tx now watch reply with
    | .inl watch => (ledger, .inl (.confirmingClaim target watch))
    | .inr (.error error) => (ledger, .inr (.error error))
    | .inr (.ok ()) => (ledger, choose settings target)
  | .seeding target retry, reply =>
    match Retry.resume (I := pool) settings.retry .claimSeed retry reply with
    | .inl retry => (ledger, .inl (.seeding target retry))
    | .inr outcome => (ledger, seeded target outcome)
  | .proving target index proving, reply =>
    match Proving.resume settings.datasets proving reply with
    | .inl proving => (ledger, .inl (.proving target index proving))
    | .inr (.error error) => (ledger, .inr (.error error))
    | .inr (.ok proof) => (ledger, .inl (.submitting target index proof (Retry.start settings.retry)))
  | .submitting target index proof retry, reply =>
    match Retry.resume (I := pool) settings.retry (.verifyClaim proof) retry reply with
    | .inl retry => (ledger, .inl (.submitting target index proof retry))
    | .inr outcome => (ledger, submitted settings now target index outcome)
  | .confirmingProof target index tx watch, reply =>
    match Confirmation.resume settings.confirmation tx now watch reply with
    | .inl watch => (ledger, .inl (.confirmingProof target index tx watch))
    | .inr (.error error) => (ledger, .inr (.error error))
    | .inr (.ok ()) => (ledger, .inl (.recording target index tx))
  | .recording target index tx, _ =>
    (ledger.verify target.number tx, .inr (.ok (some ⟨target.number, index, tx⟩)))

/-- An audit on its own. -/
def activity (settings : LedgerSettings) :
    Activity pool Ledger Phase (Except Error (Option Verification)) where
  await := await
  resume ledger now phase reply := resume settings ledger now phase reply

end Audit

end MiningPool
