/-
Module: MiningPool.Proofs.Ledger.Failure
Purpose: failures leave the ledger as it was, apart from a share that has been taken in.
Main exports: Ledger.accepts_all_of_run, Ledger.failures_of_run
-/
import MiningPool.Proofs.Ledger.ContractLog
import MiningPool.Proofs.Ledger.Operation

/-!
A submission that fails has changed nothing, whether it was refused at once, after all attempts, or could not
be prepared. A request to add a share has then taken in the share and done nothing else, so the share is
part of what is submitted next. An audit that fails has changed nothing at any of its steps.
-/

namespace MiningPool.Ledger

variable {settings : LedgerSettings} {trace : List (program settings).Event}
  {system : (program settings).System}

/-- What the contract accepts is the claim of all shares that have been taken in under its number. -/
theorem accepts_all_of_run (run : Program.Run trace system) {move : (program settings).Move}
    {next : (program settings).System} (step : Program.Step system (.moved move) next)
    {submission : Submission} (accepted : acceptance? (.moved move) = some submission) :
    submission.claimNumber = system.data.current ∧ ∃ claim,
      next.data.slots.get? submission.claimNumber = some ⟨claim, .submitted submission.tx⟩ ∧
        claim.summary = .ok submission.summary ∧
        claim.shares.Perm (trace.filterMap (takenInto? submission.claimNumber)) := by
  obtain ⟨wellFormed, sound⟩ := sound_of_run run
  have taken := perm_takenInto_of_run run system.data.current
  cases step with
  | move move running data free told =>
      have soundCall := sound _ (List.mem_of_getElem? running)
      rw [← data] at wellFormed soundCall taken ⊢
      obtain ⟨⟨summary, tx⟩, isAccepted, rfl⟩ := Option.map_eq_some_iff.1 accepted
      obtain ⟨exchange, answered, accepts⟩ := Option.bind_eq_some_iff.1 isAccepted
      have exchange_eq := accepted?_eq_some accepts
      subst exchange_eq
      obtain ⟨rotation, retry, part, rfl⟩ :=
        Part.of_query?_eq_submitClaim (query?_of_answered answered)
      have change := (move_step move).change
      rw [answered, part] at change
      rw [part] at soundCall
      obtain ⟨number, claim, _, summarized⟩ := wellFormed.of_due_eq soundCall
      have filed : move.after = move.data.accept rotation tx := by
        generalize move.after = after at change
        cases change with
        | keep known refused => exact absurd rfl (refused _ _ _ rfl)
        | accept tx => rfl
      refine ⟨rfl, rotation.claim, ?_, claim ▸ summarized, ?_⟩
      · show move.after.slots.get? move.data.current = _
        rw [filed, get?_accept, if_neg (by omega), if_pos number.symm]
      · rw [claim]
        exact move.data.openClaim.perm_sorted.trans taken

/-- A submission that fails has done nothing but taking in the share of its request. -/
theorem onlyTakes_of_failure (run : Program.Run trace system) {move : (program settings).Move}
    {next : (program settings).System} (step : Program.Step system (.moved move) next) {error : Error}
    (failed : endedBy? move = some (.rotated (.error error))) :
    OnlyTakes (Request.share? move.request) next.data
      (operation move.caller trace ++ [(system.data, next.data)]) := by
  obtain ⟨wellFormed, _⟩ := sound_of_run run
  obtain ⟨_, does⟩ := does_of_run run
  cases step with
  | move move running data free told =>
      rw [← data] at wellFormed does ⊢
      have course := move_course move
      rw [failed] at course
      obtain ⟨phase, part, rotated⟩ := course.of_rotated
      have done := does _ _ running
      rw [part] at done
      exact onlyTakes_of_step wellFormed done rotated (fun _ same => nomatch same)

/-- An audit that fails has changed nothing in any of its steps. -/
theorem unchanged_of_failure (run : Program.Run trace system) {move : (program settings).Move}
    {next : (program settings).System} (step : Program.Step system (.moved move) next) {error : Error}
    (failed : endedBy? move = some (.audited (.error error))) :
    ∀ step ∈ operation move.caller trace ++ [(system.data, next.data)], step.1 = step.2 := by
  obtain ⟨_, does⟩ := does_of_run run
  cases step with
  | move move running data free told =>
      rw [← data] at does ⊢
      have course := move_course move
      rw [failed] at course
      obtain ⟨phase, part, audited⟩ := course.of_audited
      have done := does _ _ running
      rw [part] at done
      exact unchanged_of_audit done audited (fun _ same => nomatch same)

/-- What becomes of a ledger with a failure: nothing, but for a share that was to be taken in. -/
def LeftBy (share? : Option Share) (before after : Ledger) : Prop :=
  match share? with
  | none => after = before
  | some share => Extends share before after

theorem OnlyTakes.leftBy {share? : Option Share} {before after : Ledger}
    {steps : List (Ledger × Ledger)} (only : OnlyTakes share? after steps)
    (first : ∀ step ∈ steps.head?, step.1 = before)
    (unchanged : (∀ step ∈ steps, step.1 = step.2) → after = before) :
    LeftBy share? before after := by
  cases share? with
  | none =>
      apply unchanged
      intro step member
      rw [only step member]
  | some share =>
      obtain ⟨start, rest, rfl, extended, _⟩ := only
      rwa [← first (start, after) rfl]

/-- Without others in between, a failure leaves the ledger with which the operation has begun. -/
theorem leftBy_of_failure (run : Program.Run trace system) {move : (program settings).Move}
    {next : (program settings).System} (step : Program.Step system (.moved move) next)
    {early since : List (program settings).Event} (split : trace = early ++ since)
    (idle : operation move.caller early = []) (alone : Alone move.caller since) {error : Error} :
    (endedBy? move = some (.rotated (.error error)) →
      LeftBy (Request.share? move.request) (ledgerAfter early) next.data) ∧
    (endedBy? move = some (.audited (.error error)) → next.data = ledgerAfter early) := by
  obtain ⟨first, unchanged⟩ := operation_of_alone run split idle alone
  obtain ⟨started, same⟩ := started_concat next.data first unchanged
  constructor
  · intro failed
    exact (onlyTakes_of_failure run step failed).leftBy started same
  · intro failed
    exact same (unchanged_of_failure run step failed)

/-- An operation that fails has left the ledger as it found it, apart from a share that it was to take in,
in each of its steps, and altogether if nobody has interrupted it. What the contract accepts is a claim of
all shares that have been taken in under its number, those of failed requests included. -/
theorem failures_of_run (run : Program.Run trace system) {move : (program settings).Move}
    {next : (program settings).System} (step : Program.Step system (.moved move) next) :
    (∀ error, endedBy? move = some (.rotated (.error error)) →
      OnlyTakes (Request.share? move.request) next.data
        (operation move.caller trace ++ [(system.data, next.data)])) ∧
    (∀ error, endedBy? move = some (.audited (.error error)) →
      ∀ step ∈ operation move.caller trace ++ [(system.data, next.data)], step.1 = step.2) ∧
    (∀ early since, trace = early ++ since → operation move.caller early = [] →
      Alone move.caller since → ∀ error,
        (endedBy? move = some (.rotated (.error error)) →
          LeftBy (Request.share? move.request) (ledgerAfter early) next.data) ∧
        (endedBy? move = some (.audited (.error error)) → next.data = ledgerAfter early)) ∧
    ∀ submission, acceptance? (.moved move) = some submission →
      submission.claimNumber = system.data.current ∧ ∃ claim,
        next.data.slots.get? submission.claimNumber = some ⟨claim, .submitted submission.tx⟩ ∧
          claim.summary = .ok submission.summary ∧
          claim.shares.Perm (trace.filterMap (takenInto? submission.claimNumber)) := by
  refine ⟨?_, ?_, ?_, ?_⟩
  · intro error failed
    exact onlyTakes_of_failure run step failed
  · intro error failed
    exact unchanged_of_failure run step failed
  · intro early since split idle alone error
    exact leftBy_of_failure run step split idle alone
  · intro submission accepted
    exact accepts_all_of_run run step accepted

/-- The contract may refuse the claim of a single share, which then stays in the open claim, or take it. -/
theorem failures_of_refused_run :
    ∃ (trace : List (program promptSettings).Event) (system next filed : (program promptSettings).System)
      (refused accepted : (program promptSettings).Move),
      Program.Run trace system ∧ Program.Step system (.moved refused) next ∧
        Program.Step system (.moved accepted) filed ∧
        OnlyTakes (some plainShare) next.data
          (operation refused.caller trace ++ [(system.data, next.data)]) ∧
        ∃ claim, filed.data.slots.get? 0 = some ⟨claim, .submitted (.zero 32)⟩ ∧
          claim.shares.Perm (trace.filterMap (takenInto? 0)) := by
  obtain ⟨trace, run⟩ := reachable_onlySubmitting promptSettings (Nat.le_refl 1) plainShare
  let move (answer : Except Error Hash256) : (program promptSettings).Move :=
    ⟨0, .add plainShare, .rotating (.submitting (onlyRotation plainShare)
      (Retry.start promptSettings.retry)), (fresh.add plainShare).1, 0, answer⟩
  let system : (program promptSettings).System :=
    ⟨(fresh.add plainShare).1, [onlySubmitting promptSettings plainShare], false⟩
  have refusing := Program.Step.move system (move (.error refusal)) rfl rfl
    (fun _ taken => nomatch taken) (fun cancelled => cancelled.elim)
  have accepting := Program.Step.move system (move (.ok (.zero 32))) rfl rfl
    (fun _ taken => nomatch taken) (fun cancelled => cancelled.elim)
  obtain ⟨taken, _⟩ := failures_of_run run refusing
  obtain ⟨_, _, _, all⟩ := failures_of_run run accepting
  obtain ⟨_, claim, found, _, shares⟩ :=
    all ⟨0, .zero 32, (onlyRotation plainShare).summary⟩ rfl
  exact ⟨trace, _, _, _, _, _, run, refusing, accepting, taken _ rfl, claim, found, shares⟩

end MiningPool.Ledger
