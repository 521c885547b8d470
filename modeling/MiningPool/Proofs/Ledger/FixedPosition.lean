/-
Module: MiningPool.Proofs.Ledger.FixedPosition
Purpose: with a fixed position, every audit is about the share at that position.
Main exports: Audit.Phase.IsAt, Audit.Step.isAt, Ledger.AuditsAt, Ledger.auditsAt_of_fixed,
  Audit.choose_of_drawn
-/
import MiningPool.Proofs.Ledger.Verification

/-!
The position is settled when the submission of the picked claim has been confirmed. If the settings fix it,
the contract is not asked for it, and it is the same in all later phases of the audit, in the proof, and in
the record of the verification. If they do not, the contract is asked before anything else.
-/

namespace MiningPool

namespace Audit

variable {settings : LedgerSettings} {ledger after : Ledger} {target : AuditTarget} {position : Nat}
  {phase next : Phase} {exchange : Option (Exchange pool)}

/-- The position of an audit is this one as soon as it is settled, and it is not asked for. -/
def Phase.IsAt (position : Nat) : Phase → Prop
  | entering => True
  | picking => True
  | confirmingClaim _ _ => True
  | seeding _ _ => False
  | proving _ index _ => index = position
  | submitting _ index _ _ => index = position
  | confirmingProof _ index _ _ => index = position
  | recording _ index _ => index = position

/-- The position that the settings fix is the one that is settled on. -/
theorem choose_of_fixed (fixed : settings.auditIndex = some position)
    (chosen : choose settings target = .inl next) : next.IsAt position := by
  rw [choose] at chosen
  split at chosen
  · cases chosen
  · rw [fixed] at chosen
    dsimp only at chosen
    split at chosen
    · obtain ⟨audited, rfl⟩ := prove_eq_proving chosen
      exact rfl
    · cases chosen

/-- Without a fixed position, the contract is asked for one. -/
theorem choose_of_drawn (drawn : settings.auditIndex = none) (nonempty : target.claim.size ≠ 0) :
    choose settings target = .inl (.seeding target (Retry.start settings.retry)) := by
  rw [choose, if_neg nonempty, drawn]

theorem Step.isAt (fixed : settings.auditIndex = some position) (isAt : phase.IsAt position)
    (step : Step settings ledger phase exchange after (.inl next)) : next.IsAt position := by
  cases step with
  | enter => trivial
  | pick targeted => trivial
  | awaitClaim => trivial
  | confirmClaim chosen => exact choose_of_fixed fixed chosen
  | awaitSeed => exact isAt
  | seed seed begun => exact isAt.elim
  | gather same => exact isAt
  | prove dataset assembled => exact isAt
  | awaitVerdict failed => exact isAt
  | accept tx => exact isAt
  | awaitProof => exact isAt
  | confirmProof => exact isAt

/-- A proof is for the share at the position of its audit. -/
theorem shareIndex_of_proven {index : Nat} {proof : VerificationProof} {retry : Retry.Phase}
    (proven : (Phase.submitting target index proof retry).Proven) : proof.shareIndex = index := by
  obtain ⟨audited, dataset, selected, assembled⟩ := proven
  obtain ⟨_, own, _⟩ := AuditedShare.of_select_eq_ok selected
  obtain ⟨_, _, same, _⟩ := VerificationProof.of_assemble_eq_ok assembled
  exact same.trans own

end Audit

namespace Ledger

variable {settings : LedgerSettings} {ledger after : Ledger} {part next : Part} {position : Nat}
  {exchange : Option (Exchange pool)}

/-- An audit is at this position; nothing is said about the other parts. -/
def Part.IsAt (position : Nat) : Part → Prop
  | audit phase => phase.IsAt position
  | _ => True

theorem Part.Step.isAt (fixed : settings.auditIndex = some position) (isAt : part.IsAt position)
    (step : Part.Step settings ledger part exchange after next) : next.IsAt position := by
  cases step with
  | rest => trivial
  | begin => trivial
  | rotation step => trivial
  | rotated step goesOn => rcases goesOn with rfl | rfl <;> trivial
  | audit step => exact step.isAt fixed isAt
  | audited step => trivial

theorem isAt_invariant (fixed : settings.auditIndex = some position) :
    Program.Invariant (program settings) (fun _ => True) fun _ call => (partOf call).IsAt position where
  initial := trivial
  arrive := by
    intro ledger request now _
    cases request <;> trivial
  own := by
    intro move _ isAt
    exact ⟨trivial, (move_step move).isAt fixed isAt⟩
  others := by
    intro move call _ _ isAt _
    exact isAt

variable {trace : List (program settings).Event} {system : (program settings).System}

theorem isAt_of_run (fixed : settings.auditIndex = some position) (run : Program.Run trace system) :
    ∀ call ∈ system.calls, (partOf call).IsAt position :=
  (run.invariant (isAt_invariant fixed)).2

/-- The contract is asked for a position by an audit that has none. -/
theorem Part.of_query?_eq_claimSeed (asks : part.query? = some .claimSeed) :
    ∃ target retry, part = .audit (.seeding target retry) := by
  rcases part with _ | phase | phase
  · cases asks
  · cases phase with
    | entering share => cases asks
    | submitting rotation retry => cases retry <;> cases asks
  · rcases phase with _ | _ | ⟨_, watch⟩ | ⟨target, retry⟩ | ⟨_, _, proving⟩ | ⟨_, _, _, retry⟩ |
      ⟨_, _, _, watch⟩ | _
    · cases asks
    · cases asks
    · cases watch <;> cases asks
    · cases retry <;> cases asks
      exact ⟨target, _, rfl⟩
    · cases proving <;> cases asks
    · cases retry <;> cases asks
    · cases watch <;> cases asks
    · cases asks

/-- In all runs of a ledger, audits are about the shares at one position. -/
structure AuditsAt (settings : LedgerSettings) (position : Nat) : Prop where
  /-- The contract is never asked for a position. -/
  unasked : ∀ (trace : List (program settings).Event) (system : (program settings).System),
    Program.Run trace system → ∀ call ∈ system.calls, call.query? ≠ some .claimSeed
  /-- Every proof that is shown to the contract is for the share at the position. -/
  shown : ∀ (trace : List (program settings).Event) (system : (program settings).System),
    Program.Run trace system → ∀ call ∈ system.calls, ∀ proof,
      call.query? = some (.verifyClaim proof) → proof.shareIndex = position
  recorded : ∀ (trace : List (program settings).Event) (system next : (program settings).System)
    (event : (program settings).Event), Program.Run trace system → Program.Step system event next →
      ∀ verification, verification? event = some verification → verification.shareIndex = position

theorem auditsAt_of_fixed (fixed : settings.auditIndex = some position) : AuditsAt settings position where
  unasked := by
    intro trace system run call member asks
    rw [query?_eq] at asks
    obtain ⟨target, retry, part⟩ := Part.of_query?_eq_claimSeed asks
    have isAt := isAt_of_run fixed run call member
    rw [part] at isAt
    exact isAt
  shown := by
    intro trace system run call member proof asks
    rw [query?_eq] at asks
    obtain ⟨target, index, retry, part⟩ := Part.of_query?_eq_verifyClaim asks
    have isAt := isAt_of_run fixed run call member
    have sound := (sound_of_run run).2 call member
    rw [part] at isAt sound
    exact (Audit.shareIndex_of_proven sound.proven).trans isAt
  recorded := by
    intro trace system next event run step verification verifies
    cases step with
    | arrive request now => cases verifies
    | stop => cases verifies
    | move move running data free told =>
        have course := move_course move
        rw [endedBy?_of_verification? verifies] at course
        obtain ⟨phase, part, audited⟩ := course.of_audited
        obtain ⟨target, index, tx, rfl, _, rfl⟩ := audited.of_verified
        have isAt := isAt_of_run fixed run _ (List.mem_of_getElem? running)
        rw [part] at isAt
        exact isAt

end Ledger

end MiningPool
