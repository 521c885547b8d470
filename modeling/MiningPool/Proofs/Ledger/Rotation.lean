/-
Module: MiningPool.Proofs.Ledger.Rotation
Purpose: what one step of taking in a share and submitting a claim does.
Main exports: Rotation.Step, Rotation.resume_step, Rotation.Phase.Sound, Rotation.Step.sound
-/
import MiningPool.Ledger.Rotation
import MiningPool.Proofs.Effect.Waiting
import MiningPool.Proofs.Ledger.WellFormed

/-!
The steps are listed with the exchange that ends in them and the ledger that they leave. While a claim is
being submitted, it is the open claim in the order of its counters, so that its acceptance files just the
shares that have been collected.
-/

namespace MiningPool.Rotation

variable {settings : LedgerSettings} {ledger : Ledger}

/-- The steps: phase, exchange, ledger after the step, and next phase or outcome. -/
inductive Step (settings : LedgerSettings) (ledger : Ledger) :
    Phase → Option (Exchange pool) → Ledger → Phase ⊕ Except Error Outcome → Prop where
  | look {outcome : Phase ⊕ Except Error Outcome} (looked : look settings ledger = outcome) :
      Step settings ledger (.entering none) none ledger outcome
  | duplicate {share : Share} (known : share.counter ∈ ledger.counters) :
      Step settings ledger (.entering (some share)) none ledger (.inr (.ok .duplicate))
  | add {share : Share} {outcome : Phase ⊕ Except Error Outcome}
      (new : share.counter ∉ ledger.counters) (added : (ledger.add share).2 = .ok ())
      (looked : look settings (ledger.add share).1 = outcome) :
      Step settings ledger (.entering (some share)) none (ledger.add share).1 outcome
  | lose {share : Share} {error : Error} (new : share.counter ∉ ledger.counters)
      (lost : (ledger.add share).2 = .error error) :
      Step settings ledger (.entering (some share)) none (ledger.add share).1
        (.inr (.error error))
  | wait {rotation : Rotation} {retry next : Retry.Phase} {exchange : Option (Exchange pool)}
      (failed : ∀ answered ∈ exchange,
        ∃ error, answered = ⟨PoolQuery.submitClaim rotation.summary, .error error⟩) :
      Step settings ledger (.submitting rotation retry) exchange ledger
        (.inl (.submitting rotation next))
  | refuse {rotation : Rotation} {retry : Retry.Phase} (error : Error) :
      Step settings ledger (.submitting rotation retry)
        (some ⟨PoolQuery.submitClaim rotation.summary, .error error⟩) ledger (.inr (.error error))
  | accept {rotation : Rotation} {retry : Retry.Phase} (tx : Hash256) :
      Step settings ledger (.submitting rotation retry)
        (some ⟨PoolQuery.submitClaim rotation.summary, .ok tx⟩) (ledger.accept rotation tx)
        (.inr (.ok (.kept (some ⟨rotation.number, tx, rotation.summary⟩))))

theorem resume_step (phase : Phase) (reply : (await phase).Reply) :
    Step settings ledger phase ((await phase).exchange? reply)
      (resume settings ledger phase reply).1 (resume settings ledger phase reply).2 := by
  cases phase with
  | entering entering =>
      cases entering with
      | none => exact .look rfl
      | some share =>
          simp only [resume, enter]
          split
          · rename_i known
            exact .duplicate known
          · rename_i new
            cases outcome : ledger.add share with
            | mk larger result =>
                have larger_eq : larger = (ledger.add share).1 := by rw [outcome]
                subst larger_eq
                cases result with
                | error error => exact .lose new (by rw [outcome])
                | ok _ => exact .add new (by rw [outcome]) rfl
  | submitting rotation retry =>
      simp only [resume]
      split
      · rename_i next waits
        exact .wait (Retry.resume_eq_inl waits)
      · rename_i outcome ends
        have answered : (await (.submitting rotation retry)).exchange? reply =
          some ⟨PoolQuery.submitClaim rotation.summary, outcome⟩ := Retry.resume_eq_inr ends
        rw [answered]
        cases outcome with
        | error error => exact .refuse error
        | ok tx => exact .accept tx

/-- Nobody but the contract is asked anything. -/
theorem Step.exchange {phase : Phase} {exchange : Option (Exchange pool)} {after : Ledger}
    {outcome : Phase ⊕ Except Error Outcome}
    (step : Step settings ledger phase exchange after outcome) :
    ∀ answered ∈ exchange, ∃ summary answer,
      answered = ⟨PoolQuery.submitClaim summary, answer⟩ := by
  intro answered ends
  cases step with
  | wait failed =>
      obtain ⟨error, same⟩ := failed answered ends
      exact ⟨_, _, same⟩
  | refuse error =>
      cases ends
      exact ⟨_, _, rfl⟩
  | accept tx =>
      cases ends
      exact ⟨_, _, rfl⟩
  | _ => cases ends

/-- A claim that begins to be submitted is due. -/
theorem look_eq_inl {phase : Phase} (looked : look settings ledger = .inl phase) :
    ∃ rotation, ledger.due settings.shareThreshold = .ok (some rotation) ∧
      phase = .submitting rotation (Retry.start settings.retry) := by
  rw [look] at looked
  split at looked
  · cases looked
  · cases looked
  · rename_i rotation due
    cases looked
    exact ⟨rotation, due, rfl⟩

theorem enter_eq_inl {share? : Option Share} {after : Ledger} {phase : Phase}
    (entered : enter settings ledger share? = (after, .inl phase)) :
    ∃ rotation, phase = .submitting rotation (Retry.start settings.retry) := by
  have step : Step settings ledger (.entering share?) none (enter settings ledger share?).1
      (enter settings ledger share?).2 := resume_step (.entering share?) ()
  rw [entered] at step
  cases step with
  | look looked =>
      obtain ⟨rotation, _, begun⟩ := look_eq_inl looked
      exact ⟨rotation, begun⟩
  | add new added looked =>
      obtain ⟨rotation, _, begun⟩ := look_eq_inl looked
      exact ⟨rotation, begun⟩

/-- A look at the open claim does not tell that a share is known. -/
theorem look_ne_duplicate : look settings ledger ≠ .inr (.ok .duplicate) := by
  rw [look]
  split <;> exact fun same => nomatch same

/-- A claim that is being submitted is the one that is due. -/
def Phase.Sound (settings : LedgerSettings) (ledger : Ledger) : Phase → Prop
  | .entering _ => True
  | .submitting rotation _ => ledger.due settings.shareThreshold = .ok (some rotation)

theorem Step.sound {phase next : Phase} {exchange : Option (Exchange pool)} {after : Ledger}
    (sound : phase.Sound settings ledger)
    (step : Step settings ledger phase exchange after (.inl next)) : next.Sound settings after := by
  cases step with
  | look looked =>
      obtain ⟨rotation, due, rfl⟩ := look_eq_inl looked
      exact due
  | add new added looked =>
      obtain ⟨rotation, due, rfl⟩ := look_eq_inl looked
      exact due
  | wait failed => exact sound

end MiningPool.Rotation
