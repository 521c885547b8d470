/-
Module: MiningPool.Proofs.Ledger.Audit
Purpose: what one step of an audit does.
Main exports: Audit.Step, Audit.resume_step, Audit.Phase.Sound, Audit.Step.sound
-/
import MiningPool.Ledger.Audit
import MiningPool.Proofs.Effect.Waiting
import MiningPool.Proofs.Ledger.WellFormed

/-!
The steps are listed with the exchange that ends in them and the ledger that they leave. As long as an
audit goes on, its claim stands in the ledger as it was picked, and what is submitted to the contract has
been put together for a share of that claim.
-/

namespace MiningPool

/-- The share whose proof is being gathered. -/
def Proving.Phase.audited : Proving.Phase → AuditedShare
  | indices audited => audited
  | seed audited _ => audited
  | dataset audited _ _ => audited

theorem Proving.audited_of_start_eq {claim : Claim} {index : Nat} {phase : Phase}
    (started : start claim index = .ok phase) :
    AuditedShare.select claim index = .ok phase.audited := by
  rw [start] at started
  cases selected : AuditedShare.select claim index with
  | error error =>
      rw [selected] at started
      cases started
  | ok audited =>
      rw [selected] at started
      cases started
      rfl

theorem Proving.audited_of_resume_eq_inl {datasets : DatasetLocator} {phase next : Phase}
    {reply : (await phase).Reply} (resumed : resume datasets phase reply = .inl next) :
    next.audited = phase.audited := by
  cases phase with
  | indices audited =>
      cases reply with
      | error error => cases resumed
      | ok indices =>
          cases resumed
          rfl
  | seed audited indices =>
      cases reply with
      | error error => cases resumed
      | ok seed =>
          cases resumed
          rfl
  | dataset audited indices path => cases resumed

theorem Proving.assembled_of_resume_eq_ok {datasets : DatasetLocator} {phase : Phase}
    {reply : (await phase).Reply} {proof : VerificationProof}
    (resumed : resume datasets phase reply = .inr (.ok proof)) :
    ∃ dataset, VerificationProof.assemble phase.audited dataset = .ok proof := by
  cases phase with
  | indices audited => cases reply <;> cases resumed
  | seed audited indices => cases reply <;> cases resumed
  | dataset audited indices path =>
      cases reply with
      | error error => cases resumed
      | ok content =>
          have finished : DatasetTree.ofContent indices content >>=
              VerificationProof.assemble audited = .ok proof := Sum.inr.inj resumed
          cases read : DatasetTree.ofContent indices content with
          | error error =>
              rw [read] at finished
              cases finished
          | ok dataset =>
              rw [read] at finished
              exact ⟨dataset, finished⟩

namespace Audit

variable {settings : LedgerSettings} {ledger : Ledger} {now : Instant}

/-- The steps: phase, exchange, ledger after the step, and next phase or outcome. -/
inductive Step (settings : LedgerSettings) (ledger : Ledger) :
    Phase → Option (Exchange pool) → Ledger → Next → Prop where
  | enter : Step settings ledger .entering none ledger (.inl .picking)
  | idle (nothing : ledger.auditTarget? settings.auditPolicy = none) :
      Step settings ledger .picking none ledger (.inr (.ok none))
  | pick {target : AuditTarget} {watch : Confirmation.Phase}
      (targeted : ledger.auditTarget? settings.auditPolicy = some target) :
      Step settings ledger .picking none ledger (.inl (.confirmingClaim target watch))
  | awaitClaim {target : AuditTarget} {watch next : Confirmation.Phase}
      {exchange : Option (Exchange pool)} :
      Step settings ledger (.confirmingClaim target watch) exchange ledger
        (.inl (.confirmingClaim target next))
  | confirmClaim {target : AuditTarget} {watch : Confirmation.Phase} {next : Next}
      (chosen : choose settings target = next) :
      Step settings ledger (.confirmingClaim target watch)
        (some ⟨PoolQuery.isConfirmed target.tx, .ok true⟩) ledger next
  | awaitSeed {target : AuditTarget} {retry next : Retry.Phase}
      {exchange : Option (Exchange pool)} :
      Step settings ledger (.seeding target retry) exchange ledger (.inl (.seeding target next))
  | seed {target : AuditTarget} {retry : Retry.Phase} {next : Next} (seed : Nat)
      (begun : prove target (seed % target.claim.size) = next) :
      Step settings ledger (.seeding target retry) (some ⟨PoolQuery.claimSeed, .ok seed⟩) ledger next
  | gather {target : AuditTarget} {index : Nat} {proving next : Proving.Phase}
      {exchange : Option (Exchange pool)} (same : next.audited = proving.audited) :
      Step settings ledger (.proving target index proving) exchange ledger
        (.inl (.proving target index next))
  | prove {target : AuditTarget} {index : Nat} {proving : Proving.Phase}
      {proof : VerificationProof} {exchange : Option (Exchange pool)} (dataset : DatasetTree)
      (assembled : VerificationProof.assemble proving.audited dataset = .ok proof) :
      Step settings ledger (.proving target index proving) exchange ledger
        (.inl (.submitting target index proof (Retry.start settings.retry)))
  | awaitVerdict {target : AuditTarget} {index : Nat} {proof : VerificationProof}
      {retry next : Retry.Phase} {exchange : Option (Exchange pool)}
      (failed : ∀ answered ∈ exchange,
        ∃ error, answered = ⟨PoolQuery.verifyClaim proof, .error error⟩) :
      Step settings ledger (.submitting target index proof retry) exchange ledger
        (.inl (.submitting target index proof next))
  | accept {target : AuditTarget} {index : Nat} {proof : VerificationProof} {retry : Retry.Phase}
      {watch : Confirmation.Phase} (tx : Hash256) :
      Step settings ledger (.submitting target index proof retry)
        (some ⟨PoolQuery.verifyClaim proof, .ok tx⟩) ledger
        (.inl (.confirmingProof target index tx watch))
  | awaitProof {target : AuditTarget} {index : Nat} {tx : Hash256}
      {watch next : Confirmation.Phase} {exchange : Option (Exchange pool)} :
      Step settings ledger (.confirmingProof target index tx watch) exchange ledger
        (.inl (.confirmingProof target index tx next))
  | confirmProof {target : AuditTarget} {index : Nat} {tx : Hash256}
      {watch : Confirmation.Phase} :
      Step settings ledger (.confirmingProof target index tx watch)
        (some ⟨PoolQuery.isConfirmed tx, .ok true⟩) ledger (.inl (.recording target index tx))
  | record {target : AuditTarget} {index : Nat} {tx : Hash256} :
      Step settings ledger (.recording target index tx) none (ledger.verify target.number tx)
        (.inr (.ok (some ⟨target.number, index, tx⟩)))
  | fail {phase : Phase} {exchange : Option (Exchange pool)} (error : Error)
      (unrecorded : ∀ target index tx, phase ≠ .recording target index tx)
      (refused : ∀ target index proof retry tx, phase = .submitting target index proof retry →
        exchange ≠ some ⟨PoolQuery.verifyClaim proof, .ok tx⟩) :
      Step settings ledger phase exchange ledger (.inr (.error error))

theorem resume_step (phase : Phase) (reply : (await phase).Reply) :
    Step settings ledger phase ((await phase).exchange? reply)
      (resume settings ledger now phase reply).1 (resume settings ledger now phase reply).2 := by
  cases phase with
  | entering => exact .enter
  | picking =>
      simp only [resume]
      split
      · rename_i nothing
        exact .idle nothing
      · rename_i target targeted
        exact .pick targeted
  | confirmingClaim target watch =>
      simp only [resume]
      split
      · exact .awaitClaim
      · exact .fail _ (fun _ _ _ same => nomatch same) (fun _ _ _ _ _ same => nomatch same)
      · rename_i confirmed
        have answered : (await (.confirmingClaim target watch)).exchange? reply =
          some ⟨PoolQuery.isConfirmed target.tx, .ok true⟩ := Confirmation.resume_eq_ok confirmed
        rw [answered]
        exact .confirmClaim rfl
  | seeding target retry =>
      simp only [resume]
      split
      · exact .awaitSeed
      · rename_i outcome ends
        have answered : (await (.seeding target retry)).exchange? reply =
          some ⟨PoolQuery.claimSeed, outcome⟩ := Retry.resume_eq_inr ends
        rw [answered]
        cases outcome with
        | error error =>
            exact .fail error (fun _ _ _ same => nomatch same) (fun _ _ _ _ _ same => nomatch same)
        | ok seed => exact .seed seed rfl
  | proving target index proving =>
      simp only [resume]
      split
      · rename_i next goesOn
        exact .gather (Proving.audited_of_resume_eq_inl goesOn)
      · exact .fail _ (fun _ _ _ same => nomatch same) (fun _ _ _ _ _ same => nomatch same)
      · rename_i proof made
        obtain ⟨dataset, assembled⟩ := Proving.assembled_of_resume_eq_ok made
        exact .prove dataset assembled
  | submitting target index proof retry =>
      simp only [resume]
      split
      · rename_i next goesOn
        exact .awaitVerdict (Retry.resume_eq_inl goesOn)
      · rename_i outcome ends
        have answered : (await (.submitting target index proof retry)).exchange? reply =
          some ⟨PoolQuery.verifyClaim proof, outcome⟩ := Retry.resume_eq_inr ends
        rw [answered]
        cases outcome with
        | error error =>
            refine .fail error (fun _ _ _ same => nomatch same) ?_
            rintro _ _ _ _ tx ⟨⟩ accepted
            cases accepted
        | ok tx => exact .accept tx
  | confirmingProof target index tx watch =>
      simp only [resume]
      split
      · exact .awaitProof
      · exact .fail _ (fun _ _ _ same => nomatch same) (fun _ _ _ _ _ same => nomatch same)
      · rename_i confirmed
        have answered : (await (.confirmingProof target index tx watch)).exchange? reply =
          some ⟨PoolQuery.isConfirmed tx, .ok true⟩ := Confirmation.resume_eq_ok confirmed
        rw [answered]
        exact .confirmProof
  | recording target index tx => exact .record

/-! ### The audited claim -/

/-- The claim that has been picked. -/
def Phase.target? : Phase → Option AuditTarget
  | entering => none
  | picking => none
  | confirmingClaim target _ => some target
  | seeding target _ => some target
  | proving target _ _ => some target
  | submitting target _ _ _ => some target
  | confirmingProof target _ _ _ => some target
  | recording target _ _ => some target

/-- The proof is for the share at the settled position. -/
def Phase.Proven : Phase → Prop
  | proving target index gathered =>
      AuditedShare.select target.claim index = .ok gathered.audited
  | submitting target index proof _ =>
      ∃ audited dataset, AuditedShare.select target.claim index = .ok audited ∧
        VerificationProof.assemble audited dataset = .ok proof
  | _ => True

/-- The picked claim still waits for its audit. -/
structure Phase.Sound (ledger : Ledger) (phase : Phase) : Prop where
  target : ∀ target ∈ phase.target?,
    ledger.slots.get? target.number = some ⟨target.claim, .submitted target.tx⟩
  proven : phase.Proven

theorem prove_eq_inl {target : AuditTarget} {index : Nat} {phase : Phase}
    (begun : prove target index = .inl phase) : phase.target? = some target ∧ phase.Proven := by
  rw [Audit.prove] at begun
  split at begun
  · cases begun
  · rename_i proving started
    cases begun
    exact ⟨rfl, Proving.audited_of_start_eq started⟩

theorem choose_eq_inl {target : AuditTarget} {phase : Phase}
    (chosen : choose settings target = .inl phase) :
    phase.target? = some target ∧ phase.Proven := by
  rw [choose] at chosen
  split at chosen
  · cases chosen
  · split at chosen
    · cases chosen
      exact ⟨rfl, trivial⟩
    · split at chosen
      · exact prove_eq_inl chosen
      · cases chosen

theorem prove_eq_proving {target : AuditTarget} {index : Nat} {phase : Phase}
    (begun : prove target index = .inl phase) :
    ∃ audited, phase = .proving target index (.indices audited) := by
  rw [Audit.prove, Proving.start] at begun
  cases selected : AuditedShare.select target.claim index with
  | error error =>
      rw [selected] at begun
      cases begun
  | ok audited =>
      rw [selected] at begun
      cases begun
      exact ⟨audited, rfl⟩

/-- After the pick has been confirmed, the position is asked for or its proof is begun. -/
theorem choose_eq_seeding_or_proving {target : AuditTarget} {phase : Phase}
    (chosen : choose settings target = .inl phase) :
    (∃ retry, phase = .seeding target retry) ∨
      ∃ index audited, phase = .proving target index (.indices audited) := by
  rw [choose] at chosen
  split at chosen
  · cases chosen
  · split at chosen
    · cases chosen
      exact .inl ⟨_, rfl⟩
    · split at chosen
      · exact .inr ⟨_, prove_eq_proving chosen⟩
      · cases chosen

theorem prove_ne_ok {target : AuditTarget} {index : Nat} {outcome : Option Verification} :
    prove target index ≠ .inr (.ok outcome) := by
  rw [Audit.prove]
  split <;> exact fun same => nomatch same

/-- No audit is over before its position has been settled. -/
theorem choose_ne_ok {target : AuditTarget} {outcome : Option Verification} :
    choose settings target ≠ .inr (.ok outcome) := by
  rw [choose]
  split
  · exact fun same => nomatch same
  · split
    · exact fun same => nomatch same
    · split
      · exact prove_ne_ok
      · exact fun same => nomatch same

/-- A settled position of the claim is proved at once. -/
theorem choose_of_select {target : AuditTarget} {index : Nat} {audited : AuditedShare}
    (position : settings.auditIndex = some index) (inside : index < target.claim.size)
    (selected : AuditedShare.select target.claim index = .ok audited) :
    choose settings target = .inl (.proving target index (.indices audited)) := by
  have started : Proving.start target.claim index = .ok (.indices audited) := by
    rw [Proving.start, selected]
    rfl
  have nonempty : target.claim.size ≠ 0 := Nat.ne_of_gt (Nat.zero_lt_of_lt inside)
  rw [choose, if_neg nonempty, position]
  simp only [if_pos inside, Audit.prove, started]

theorem Step.sound {threshold : Nat} {phase next : Phase} {exchange : Option (Exchange pool)}
    {after : Ledger} (wellFormed : ledger.WellFormed threshold) (sound : phase.Sound ledger)
    (step : Step settings ledger phase exchange after (.inl next)) : next.Sound after := by
  cases step with
  | enter => exact ⟨by simp [Phase.target?], trivial⟩
  | pick targeted =>
      refine ⟨?_, trivial⟩
      intro target picked
      cases picked
      exact wellFormed.of_auditTarget?_eq targeted
  | awaitClaim => exact ⟨sound.target, trivial⟩
  | confirmClaim chosen =>
      obtain ⟨same, proven⟩ := choose_eq_inl chosen
      exact ⟨same ▸ sound.target, proven⟩
  | awaitSeed => exact ⟨sound.target, trivial⟩
  | seed seed begun =>
      obtain ⟨same, proven⟩ := prove_eq_inl begun
      exact ⟨same ▸ sound.target, proven⟩
  | gather same =>
      have selected := sound.proven
      rw [Phase.Proven, ← same] at selected
      exact ⟨sound.target, selected⟩
  | prove dataset assembled => exact ⟨sound.target, _, dataset, sound.proven, assembled⟩
  | awaitVerdict failed => exact ⟨sound.target, sound.proven⟩
  | accept tx => exact ⟨sound.target, trivial⟩
  | awaitProof => exact ⟨sound.target, trivial⟩
  | confirmProof => exact ⟨sound.target, trivial⟩

/-- A verification is the record of a proof that has been confirmed. -/
theorem Step.of_verified {phase : Phase} {exchange : Option (Exchange pool)} {after : Ledger}
    {verification : Verification}
    (step : Step settings ledger phase exchange after (.inr (.ok (some verification)))) :
    ∃ target index tx, phase = .recording target index tx ∧
      after = ledger.verify target.number tx ∧ verification = ⟨target.number, index, tx⟩ := by
  generalize same : (Sum.inr (.ok (some verification)) : Next) = next at step
  cases step with
  | record =>
      cases same
      exact ⟨_, _, _, rfl, rfl, rfl⟩
  | confirmClaim chosen => exact absurd (chosen.trans same.symm) choose_ne_ok
  | seed seed begun => exact absurd (begun.trans same.symm) prove_ne_ok
  | _ => cases same

end Audit

end MiningPool
