/-
Module: MiningPool.Ledger.Basic
Purpose: all claims of a pool, from the first to the one that collects shares.
Main exports: Ledger, ClaimStatus, LedgerSettings, Ledger.add, Ledger.accept
-/
import MiningPool.Claim.Basic
import MiningPool.Dataset.Locator
import MiningPool.Effect.Confirmation
import MiningPool.Effect.Retry

/-!
Claims are numbered from zero. The claim with the current number collects shares; the ledger remembers
their counters, so that no share is taken twice into one claim. A claim that has been accepted by the
contract is kept in the order of its counters with the transaction that submitted it, and later with the
one that verified it.
-/

namespace MiningPool

/-- How far a claim has come. -/
inductive ClaimStatus where
  | collecting
  | submitted (tx : Hash256)
  | verified (tx : Hash256)
deriving DecidableEq

/-- A claim and how far it has come. -/
structure Slot where
  claim : Claim
  status : ClaimStatus
deriving DecidableEq

/-- An empty claim. -/
def Slot.fresh : Slot := ⟨Claim.empty, .collecting⟩

/-- Slots by claim number, in ascending order. -/
abbrev Slots := List (Nat × Slot)

namespace Slots

/-- The slot of a number. -/
def get? (slots : Slots) (number : Nat) : Option Slot :=
  (slots.find? (·.1 = number)).map (·.2)

/-- Sets the slot of a number. -/
def insert (number : Nat) (slot : Slot) : Slots → Slots
  | [] => [(number, slot)]
  | (other, old) :: rest =>
    if number < other then (number, slot) :: (other, old) :: rest
    else if number = other then (number, slot) :: rest
    else (other, old) :: insert number slot rest

end Slots

/-- Which submitted claim is audited. -/
inductive AuditPolicy where
  /-- The one before the current claim. -/
  | previous
  /-- The one with the lowest number. -/
  | oldestUnverified
deriving Repr, DecidableEq

/-- How claims are kept, submitted and audited. -/
structure LedgerSettings where
  /-- The number of shares at which a claim is submitted. -/
  shareThreshold : Nat
  auditPolicy : AuditPolicy
  /-- The audited position; without one it is drawn by the contract. -/
  auditIndex : Option Nat
  datasets : DatasetLocator
  /-- The time between two rounds of submitting and auditing. -/
  submitInterval : Duration
  confirmation : WatchSettings
  retry : RetryPolicy
deriving Repr, DecidableEq

/-- All claims of a pool. -/
structure Ledger where
  slots : Slots
  /-- The number of the claim that collects shares. -/
  current : Nat
  /-- The counters of the shares in that claim. -/
  counters : List Nat
deriving DecidableEq

/-- A submission that the contract has accepted. -/
structure Submission where
  claimNumber : Nat
  tx : Hash256
  summary : ClaimSummary
deriving DecidableEq

/-- A claim on its way to the contract. -/
structure Rotation where
  number : Nat
  /-- The claim in the order of its counters. -/
  claim : Claim
  summary : ClaimSummary
deriving DecidableEq

/-- A submitted claim that is to be audited. -/
structure AuditTarget where
  number : Nat
  claim : Claim
  tx : Hash256
deriving DecidableEq

namespace Ledger

/-- A ledger with one empty claim. -/
def fresh : Ledger := ⟨[(0, Slot.fresh)], 0, []⟩

/-- The slot that collects shares. -/
def currentSlot (ledger : Ledger) : Except Error Slot :=
  match ledger.slots.get? ledger.current with
  | some slot => .ok slot
  | none => .error (.state (.noSlot ledger.current))

/-- How far a claim has come. -/
def status? (ledger : Ledger) (number : Nat) : Option ClaimStatus :=
  (ledger.slots.get? number).map (·.status)

/-- Remembers the counter of a share and puts the share into the current claim. -/
def add (ledger : Ledger) (share : Share) : Ledger × Except Error Unit :=
  let ledger := { ledger with counters := share.counter :: ledger.counters }
  match ledger.currentSlot with
  | .error error => (ledger, .error error)
  | .ok slot =>
    let slot := { slot with claim := slot.claim.push share }
    ({ ledger with slots := ledger.slots.insert ledger.current slot }, .ok ())

/-- The current claim as it is submitted, if it has enough shares. -/
def due (ledger : Ledger) (threshold : Nat) : Except Error (Option Rotation) := do
  let slot ← ledger.currentSlot
  if slot.claim.size < threshold then .ok none
  else
    let claim := slot.claim.sorted
    let summary ← claim.summary
    .ok (some ⟨ledger.current, claim, summary⟩)

/-- Files a claim that the contract has accepted and opens the next one. -/
def accept (ledger : Ledger) (rotation : Rotation) (tx : Hash256) : Ledger where
  slots :=
    (ledger.slots.insert rotation.number ⟨rotation.claim, .submitted tx⟩).insert
      (rotation.number + 1) Slot.fresh
  current := rotation.number + 1
  counters := []

/-- A slot whose claim waits for its audit. -/
def awaitingAudit? (number : Nat) (slot : Slot) : Option AuditTarget :=
  match slot.status with
  | .submitted tx => some ⟨number, slot.claim, tx⟩
  | _ => none

/-- The claim that is audited next, if one waits for it. -/
def auditTarget? (ledger : Ledger) : AuditPolicy → Option AuditTarget
  | .previous =>
    match ledger.current with
    | 0 => none
    | number + 1 => ledger.slots.get? number >>= awaitingAudit? number
  | .oldestUnverified => ledger.slots.findSome? fun (number, slot) => awaitingAudit? number slot

/-- Records that a claim has been verified. -/
def verify (ledger : Ledger) (number : Nat) (tx : Hash256) : Ledger :=
  match ledger.slots.get? number with
  | some slot => { ledger with slots := ledger.slots.insert number { slot with status := .verified tx } }
  | none => ledger

end Ledger

end MiningPool
