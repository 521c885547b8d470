/-
Module: MiningPool.Proofs.Ledger.Completion
Purpose: a claim that is large enough is submitted.
Main exports: Ledger.WellFormed.exists_due_eq, Rotation.look_ne_error, Ledger.submitting_of_run
-/
import MiningPool.Proofs.Ledger.Operation

/-!
A claim that is large enough can be summarized, unless it is too large for a tree. So the request whose
share completes the open claim goes on to submit it, and holds the ledger until the contract has accepted
the claim or the submission has failed for good.
-/

namespace MiningPool

namespace Ledger

variable {settings : LedgerSettings} {threshold : Nat} {ledger after : Ledger}

/-! ### Claims that are due -/

namespace WellFormed

/-- A claim that is large enough but not too large is due. -/
theorem due_eq_of_le (wellFormed : ledger.WellFormed threshold) (positive : 1 ≤ threshold)
    (few : ledger.openClaim.size ≤ 2 ^ (32 : Nat)) (large : threshold ≤ ledger.openClaim.size) :
    ∃ rotation, ledger.due threshold = .ok (some rotation) := by
  obtain ⟨summary, _, due⟩ := exists_due_of_large wellFormed.currentSlot_eq positive few large
  exact ⟨_, due⟩

theorem exists_due_eq (wellFormed : ledger.WellFormed threshold) (positive : 1 ≤ threshold)
    (few : ledger.openClaim.size ≤ 2 ^ (32 : Nat)) :
    ∃ rotation?, ledger.due threshold = .ok rotation? := by
  by_cases large : threshold ≤ ledger.openClaim.size
  · obtain ⟨rotation, due⟩ := wellFormed.due_eq_of_le positive few large
    exact ⟨some rotation, due⟩
  · refine ⟨none, ?_⟩
    simp only [Ledger.due, wellFormed.currentSlot_eq, bind, Except.bind,
      if_pos (Nat.lt_of_not_le large)]

end WellFormed

/-- A look at the open claim does not fail. -/
theorem look_ne_error (wellFormed : ledger.WellFormed settings.shareThreshold)
    (positive : 1 ≤ settings.shareThreshold) (few : ledger.openClaim.size ≤ 2 ^ (32 : Nat))
    (error : Error) : Rotation.look settings ledger ≠ .inr (.error error) := by
  obtain ⟨rotation?, due⟩ := wellFormed.exists_due_eq positive few
  rw [Rotation.look, due]
  cases rotation? <;> simp

theorem openClaim_accept (rotation : Rotation) (tx : Hash256) :
    (ledger.accept rotation tx).openClaim = Claim.empty := by
  have opened : (ledger.accept rotation tx).slots.get? (rotation.number + 1) = some Slot.fresh := by
    rw [get?_accept, if_pos rfl]
  exact claimOf_eq opened

/-! ### Requests that submit -/

/-- The request to add a share is submitting the open claim. -/
def Submits (call : (program settings).Call) : Prop :=
  ∃ share rotation retry, call =
    ⟨.add share, .inl (.rotating (.submitting rotation retry))⟩

/-- Whenever the contract refuses a submission, the call that has asked goes on to ask again. -/
def Accepting (trace : List (program settings).Event) : Prop :=
  ∀ move, .moved move ∈ trace → ∀ summary error,
    move.exchange? = some ⟨PoolQuery.submitClaim summary, .error error⟩ → endedBy? move = none

variable {trace : List (program settings).Event} {system : (program settings).System}

theorem Accepting.of_append {late : List (program settings).Event}
    (accepting : Accepting (trace ++ late)) : Accepting trace := by
  intro move member
  exact accepting move (List.mem_append_left late member)

theorem Submits.held {call : (program settings).Call} (submits : Submits call) :
    .ledger ∈ (partOf call).held := by
  obtain ⟨share, rotation, retry, rfl⟩ := submits
  exact List.mem_singleton.2 rfl

/-- A submission that is not over yet and has not failed for good is still under way. -/
theorem Submits.next {move : (program settings).Move} (submits : Submits move.call)
    (accepting : Accepting (trace ++ [.moved move])) (positive : 1 ≤ settings.shareThreshold)
    (large : settings.shareThreshold ≤ move.after.openClaim.size) : Submits move.next := by
  obtain ⟨share, rotation, retry, isCall⟩ := submits
  obtain ⟨request, stage⟩ := Program.Call.mk.inj isCall
  have rotating := Sum.inl.inj stage
  obtain ⟨outcome, step, next⟩ := rotating_step rotating
  have course := move_course move
  rw [isCall, next] at course
  have again := accepting move (List.mem_append_right trace (List.mem_singleton.2 rfl))
  rw [next, request]
  generalize move.exchange? = exchange at step course again
  generalize move.after = after at step course large
  cases step with
  | wait failed => exact ⟨share, rotation, _, rfl⟩
  | refuse error =>
      rw [again rotation.summary error rfl] at course
      nomatch course
  | accept tx =>
      rw [openClaim_accept] at large
      exact absurd (Nat.le_trans positive large) (by decide)

/-- Only a request to add a share waits to do so. -/
theorem Fits.request_eq {call : (program settings).Call} (fits : Fits call) {share : Share}
    (entering : partOf call = .rotation (.entering (some share))) : call.request = .add share := by
  exact Request.eq_add_of_share?_eq (fits.entering _ entering).symm

/-- The request whose share completes the open claim begins to submit it. -/
theorem submits_of_completed {move : (program settings).Move} (fits : Fits move.call)
    (wellFormed : move.data.WellFormed settings.shareThreshold)
    (change : Part.Change settings move.data (partOf move.call) move.exchange? move.after)
    (sound : (partOf move.call).Sound settings move.data) (positive : 1 ≤ settings.shareThreshold)
    (few : move.after.openClaim.size ≤ 2 ^ (32 : Nat))
    (small : ¬settings.shareThreshold ≤ move.data.openClaim.size)
    (large : settings.shareThreshold ≤ move.after.openClaim.size) : Submits move.next := by
  have wellFormedAfter := change.wellFormed wellFormed sound
  by_cases entering : ∃ share, partOf move.call = .rotation (.entering (some share))
  · obtain ⟨share, entering⟩ := entering
    obtain ⟨outcome, step, next⟩ := rotating_step (fits.phase_eq entering)
    have adding : move.request = .add share := fits.request_eq entering
    rw [next, adding]
    generalize move.exchange? = exchange at step
    generalize move.after = after at step large few wellFormedAfter
    cases step with
    | duplicate known => exact absurd large small
    | add new added looked =>
        obtain ⟨rotation, due⟩ := wellFormedAfter.due_eq_of_le positive few large
        rw [← looked, Rotation.look, due]
        exact ⟨share, rotation, _, rfl⟩
    | lose new lost =>
        rw [wellFormed.add_eq] at lost
        cases lost
  · exfalso
    generalize partOf move.call = part at entering change sound
    generalize move.exchange? = exchange at change
    generalize move.after = after at change large
    cases change with
    | keep known refused => exact small large
    | add new => exact entering ⟨_, rfl⟩
    | accept tx =>
        rw [openClaim_accept] at large
        exact absurd (Nat.le_trans positive large) (by decide)
    | verify =>
        have below := wellFormed.lt_current (sound.target _ rfl) ClaimStatus.noConfusion
        rw [wellFormed.openClaim_verify below] at large
        exact small large

/-- While the open claim is large enough, a request that has added a share is submitting it. -/
theorem submitting_of_run (positive : 1 ≤ settings.shareThreshold)
    (run : Program.Run trace system) (accepting : Accepting trace)
    (few : ∀ move, .moved move ∈ trace → move.after.openClaim.size ≤ 2 ^ (32 : Nat))
    (large : settings.shareThreshold ≤ system.data.openClaim.size) :
    ∃ call ∈ system.calls, Submits call := by
  induction run with
  | start =>
      have empty : settings.shareThreshold ≤ fresh.openClaim.size := large
      exact absurd (Nat.le_trans positive empty) (by decide)
  | @step trace system next event run step ih =>
      have earlier := ih accepting.of_append fun move member => few move (List.mem_append_left _ member)
      cases step with
      | arrive request now =>
          obtain ⟨call, member, submits⟩ := earlier large
          exact ⟨call, List.mem_append_left _ member, submits⟩
      | stop => exact earlier large
      | move move running data free told =>
          obtain ⟨wellFormed, sound⟩ := sound_of_run run
          have member := List.mem_of_getElem? running
          have inside : move.caller < system.calls.length := (List.getElem?_eq_some_iff.1 running).1
          have fewAfter := few move (List.mem_append_right _ (List.mem_singleton.2 rfl))
          have change := (move_step move).change
          rw [← data] at wellFormed sound earlier
          have large : settings.shareThreshold ≤ move.after.openClaim.size := large
          by_cases before : settings.shareThreshold ≤ move.data.openClaim.size
          · obtain ⟨call, called, submits⟩ := earlier before
            obtain ⟨index, found⟩ := List.getElem?_of_mem called
            by_cases own : index = move.caller
            · rw [own, running] at found
              cases found
              exact ⟨move.next, List.mem_set inside move.next, submits.next accepting positive large⟩
            · refine ⟨call, ?_, submits⟩
              apply List.mem_of_getElem? (i := index)
              rw [← found]
              exact List.getElem?_set_ne (Ne.symm own)
          · exact ⟨move.next, List.mem_set inside move.next,
              submits_of_completed (fits_of_run run _ member) wellFormed change (sound _ member)
                positive fewAfter before large⟩

end Ledger

end MiningPool
