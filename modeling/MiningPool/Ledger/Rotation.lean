/-
Module: MiningPool.Ledger.Rotation
Purpose: taking in shares and submitting claims that are complete.
Main exports: Rotation.Phase, Rotation.Outcome, Rotation.activity
-/
import MiningPool.Ledger.Basic

/-!
A share is put into the current claim unless that holds its counter already. Then, and also at regular
times without a new share, the current claim is submitted if it has enough shares. The ledger is held from
the look at the claim until the contract has accepted it and the next claim is open, through all attempts
in between; if the submission fails, the ledger stays as it was, with the share in it.
-/

namespace MiningPool.Rotation

/-- What became of a share, or of a look at the current claim. -/
inductive Outcome where
  /-- The current claim holds a share with this counter. -/
  | duplicate
  /-- The share, if there was one, is kept; the claim may have been submitted. -/
  | kept (submission : Option Submission)
deriving DecidableEq

/-- How far the work has come. -/
inductive Phase where
  /-- Waiting for the ledger, perhaps with a share. -/
  | entering (share : Option Share)
  /-- Holding the ledger while the contract is asked to accept the claim. -/
  | submitting (rotation : Rotation) (retry : Retry.Phase)

def await : Phase → Await pool
  | .entering _ => .lock .ledger
  | .submitting rotation retry => Retry.await (I := pool) (.submitClaim rotation.summary) retry

/-- Begins to submit the current claim if it has enough shares. -/
def look (settings : LedgerSettings) (ledger : Ledger) : Phase ⊕ Except Error Outcome :=
  match ledger.due settings.shareThreshold with
  | .error error => .inr (.error error)
  | .ok none => .inr (.ok (.kept none))
  | .ok (some rotation) => .inl (.submitting rotation (Retry.start settings.retry))

/-- The step of a holder of the ledger. -/
def enter (settings : LedgerSettings) (ledger : Ledger) :
    Option Share → Ledger × (Phase ⊕ Except Error Outcome)
  | none => (ledger, look settings ledger)
  | some share =>
    if share.counter ∈ ledger.counters then (ledger, .inr (.ok .duplicate))
    else
      match ledger.add share with
      | (ledger, .error error) => (ledger, .inr (.error error))
      | (ledger, .ok ()) => (ledger, look settings ledger)

/-- Files the claim if the contract has accepted it. -/
def conclude (ledger : Ledger) (rotation : Rotation) :
    Except Error Hash256 → Ledger × Except Error Outcome
  | .error error => (ledger, .error error)
  | .ok tx =>
    (ledger.accept rotation tx, .ok (.kept (some ⟨rotation.number, tx, rotation.summary⟩)))

def resume (settings : LedgerSettings) (ledger : Ledger) :
    (phase : Phase) → (await phase).Reply → Ledger × (Phase ⊕ Except Error Outcome)
  | .entering share, _ => enter settings ledger share
  | .submitting rotation retry, reply =>
    match Retry.resume (I := pool) settings.retry (.submitClaim rotation.summary) retry reply with
    | .inl retry => (ledger, .inl (.submitting rotation retry))
    | .inr outcome =>
      let (ledger, result) := conclude ledger rotation outcome
      (ledger, .inr result)

/-- Taking in a share, or looking at the current claim, on its own. -/
def activity (settings : LedgerSettings) : Activity pool Ledger Phase (Except Error Outcome) where
  await := await
  resume ledger _ phase reply := resume settings ledger phase reply

end MiningPool.Rotation
