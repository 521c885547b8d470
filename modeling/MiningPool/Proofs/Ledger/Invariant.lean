/-
Module: MiningPool.Proofs.Ledger.Invariant
Purpose: the ledger is well formed at every time, and its claims only advance.
Main exports: Ledger.Part.Change, Ledger.Part.Step.change, Ledger.Part.Sound, Ledger.sound_of_run,
  Ledger.invariant_of_run
-/
import MiningPool.Proofs.Ledger.Serial

/-!
What an activity has seen of the ledger stays true while it holds a lock on it: a claim that is being
submitted is not changed by others, and a claim that is being audited is not verified by others. So the
ledger that an activity comes back to is one on which its step makes sense.
-/

namespace MiningPool.Ledger

variable {settings : LedgerSettings} {ledger after : Ledger} {part next other : Part}
  {exchange : Option (Exchange pool)}

namespace Part

/-- What an activity relies on. -/
def Sound (settings : LedgerSettings) (ledger : Ledger) : Part → Prop
  | idle => True
  | rotation phase => phase.Sound settings ledger
  | audit phase => phase.Sound ledger

/-- The parts do not share a lock, neither before nor after the step of the first one. -/
def Apart (part other : Part) : Prop := ∀ lock ∈ other.held, lock ∉ part.held ∧ lock ∉ part.locks

/-- Calls that share no lock are busy with parts that share none. -/
theorem Apart.of_move {ρ : Type} {program : Program pool ρ} {move : program.Move}
    {call : program.Call} (held : move.call.held = part.held) (locks : move.locks = part.locks)
    (otherHeld : call.held = other.held) (apart : move.Apart call) : part.Apart other := by
  intro lock member
  rw [← held, ← locks]
  exact apart lock (otherHeld ▸ member)

/-- What steps do to the ledger. -/
inductive Change (settings : LedgerSettings) (ledger : Ledger) :
    Part → Option (Exchange pool) → Ledger → Prop where
  | keep {part : Part} {exchange : Option (Exchange pool)}
      (known : ∀ share, part = .rotation (.entering (some share)) →
        share.counter ∈ ledger.counters)
      (refused : ∀ rotation retry tx, part = .rotation (.submitting rotation retry) →
        exchange ≠ some ⟨PoolQuery.submitClaim rotation.summary, .ok tx⟩) :
      Change settings ledger part exchange ledger
  | add {share : Share} (new : share.counter ∉ ledger.counters) :
      Change settings ledger (.rotation (.entering (some share))) none (ledger.add share).1
  | accept {rotation : Rotation} {retry : Retry.Phase} (tx : Hash256) :
      Change settings ledger (.rotation (.submitting rotation retry))
        (some ⟨PoolQuery.submitClaim rotation.summary, .ok tx⟩) (ledger.accept rotation tx)
  | verify {target : AuditTarget} {index : Nat} {tx : Hash256} :
      Change settings ledger (.audit (.recording target index tx)) none
        (ledger.verify target.number tx)

theorem change_of_rotation {phase : Rotation.Phase} {outcome}
    (step : Rotation.Step settings ledger phase exchange after outcome) :
    Change settings ledger (.rotation phase) exchange after := by
  cases step with
  | look looked => exact .keep (by rintro share ⟨⟩) (by rintro rotation retry tx ⟨⟩)
  | duplicate known =>
      refine .keep ?_ (by rintro rotation retry tx ⟨⟩)
      rintro share ⟨⟩
      exact known
  | add new added looked => exact .add new
  | lose new lost => exact .add new
  | wait failed =>
      refine .keep (by rintro share ⟨⟩) ?_
      rintro rotation retry tx ⟨⟩ accepted
      obtain ⟨error, same⟩ := failed _ accepted
      cases same
  | refuse error =>
      refine .keep (by rintro share ⟨⟩) ?_
      rintro rotation retry tx ⟨⟩ accepted
      cases accepted
  | accept tx => exact .accept tx

theorem change_of_audit {phase : Audit.Phase} {outcome}
    (step : Audit.Step settings ledger phase exchange after outcome) :
    Change settings ledger (.audit phase) exchange after := by
  cases step with
  | record => exact .verify
  | _ => exact .keep (by rintro share ⟨⟩) (by rintro rotation retry tx ⟨⟩)

theorem Step.change (step : Step settings ledger part exchange after next) :
    Change settings ledger part exchange after := by
  cases step with
  | rest => exact .keep (by rintro share ⟨⟩) (by rintro rotation retry tx ⟨⟩)
  | begin => exact .keep (by rintro share ⟨⟩) (by rintro rotation retry tx ⟨⟩)
  | rotation step => exact change_of_rotation step
  | rotated step goesOn => exact change_of_rotation step
  | audit step => exact change_of_audit step
  | audited step => exact change_of_audit step

namespace Change

/-- Without the ledger there is no change. -/
theorem ledger_eq (change : Change settings ledger part exchange after)
    (notHeld : .ledger ∉ part.held) (notTaken : .ledger ∉ part.locks) : after = ledger := by
  cases change with
  | keep known refused => rfl
  | add new => exact (notTaken (List.mem_singleton.2 rfl)).elim
  | accept tx => exact (notHeld (List.mem_singleton.2 rfl)).elim
  | verify => exact (notTaken (List.mem_singleton.2 rfl)).elim

variable (before : ledger.WellFormed settings.shareThreshold)
  (sound : part.Sound settings ledger) (change : Change settings ledger part exchange after)

include before sound change

theorem wellFormed : after.WellFormed settings.shareThreshold := by
  cases change with
  | keep known refused => exact before
  | add new => exact before.add new
  | accept tx => exact before.accept sound tx
  | verify =>
      have submitted := sound.target _ rfl
      exact before.verify (before.lt_current submitted ClaimStatus.noConfusion) _

theorem advances : ledger.Advances after := by
  cases change with
  | keep known refused => exact .refl ledger
  | add new => exact before.advances_add _
  | accept tx => exact before.advances_accept sound tx
  | verify => exact advances_verify (sound.target _ rfl) _

/-- Without the right to audit, submitted claims stay as they are. -/
theorem get?_of_filed (notHeld : .audit ∉ part.held) {number : Nat} {slot : Slot}
    (found : ledger.slots.get? number = some slot) (filed : slot.status ≠ .collecting) :
    after.slots.get? number = some slot := by
  have below := before.lt_current found filed
  cases change with
  | keep known refused => exact found
  | add new => rw [before.add_eq, Slots.get?_insert_of_ne (Nat.ne_of_lt below), found]
  | accept tx =>
      obtain ⟨isCurrent, _⟩ := before.of_due_eq sound
      rw [get?_accept, if_neg (by omega), if_neg (by omega), found]
  | verify => exact (notHeld (List.mem_singleton.2 rfl)).elim

/-- What others rely on is not touched. -/
theorem sound_other (otherSound : other.Sound settings ledger) (apart : part.Apart other) :
    other.Sound settings after := by
  cases other with
  | idle => trivial
  | rotation phase =>
      cases phase with
      | entering share => trivial
      | submitting rotation retry =>
          obtain ⟨notHeld, notTaken⟩ := apart .ledger (List.mem_singleton.2 rfl)
          rw [change.ledger_eq notHeld notTaken]
          exact otherSound
  | audit phase =>
      refine ⟨?_, otherSound.proven⟩
      intro target picked
      have held : .audit ∈ (Part.audit phase).held := by
        cases phase with
        | entering => cases picked
        | _ => exact List.mem_singleton.2 rfl
      exact change.get?_of_filed before sound (apart .audit held).1
        (otherSound.target target picked) ClaimStatus.noConfusion

end Change

theorem Step.sound (wellFormed : ledger.WellFormed settings.shareThreshold)
    (sound : part.Sound settings ledger) (step : Step settings ledger part exchange after next) :
    next.Sound settings after := by
  cases step with
  | rest => trivial
  | begin => trivial
  | rotation step => exact step.sound sound
  | rotated step goesOn =>
      rcases goesOn with rfl | rfl
      · trivial
      · exact ⟨by simp [Audit.Phase.target?], trivial⟩
  | audit step => exact step.sound wellFormed sound
  | audited step => trivial

end Part

/-! ### Runs -/

/-- What a call is busy with. -/
def partOf (call : (program settings).Call) : Part := partAfter call.stage

theorem held_eq (call : (program settings).Call) : call.held = (partOf call).held := by
  obtain ⟨request, phase | result⟩ := call <;> rfl

theorem query?_eq (call : (program settings).Call) : call.query? = (partOf call).query? := by
  obtain ⟨request, phase | result⟩ := call
  · exact query?_await phase
  · rfl

/-- What is answered with a step has been asked before it. -/
theorem query?_of_answered {move : (program settings).Move} {answered : Exchange pool}
    (ends : move.exchange? = some answered) : (partOf move.call).query? = some answered.query := by
  rw [← query?_eq]
  exact Await.query?_of_exchange? ends

theorem move_step (move : (program settings).Move) :
    Part.Step settings move.data (partOf move.call) move.exchange? move.after (partOf move.next) :=
  resume_step move.phase move.reply

theorem apart_of_move {move : (program settings).Move} {call : (program settings).Call}
    (apart : move.Apart call) : (partOf move.call).Apart (partOf call) :=
  .of_move (held_eq move.call) (locks_await move.phase) (held_eq call) apart

/-- The ledger is well formed, and what the activities rely on holds. -/
theorem program_invariant (settings : LedgerSettings) :
    Program.Invariant (program settings) (WellFormed settings.shareThreshold)
      fun ledger call => (partOf call).Sound settings ledger where
  initial := .fresh
  arrive := by
    intro ledger request now wellFormed
    cases request with
    | add share => trivial
    | rotate => trivial
    | verify => exact ⟨by simp [Audit.Phase.target?], trivial⟩
    | cycle => trivial
  own := by
    intro move wellFormed sound
    have step := move_step move
    exact ⟨step.change.wellFormed wellFormed sound, step.sound wellFormed sound⟩
  others := by
    intro move call wellFormed sound otherSound apart
    exact (move_step move).change.sound_other wellFormed sound otherSound (apart_of_move apart)

variable {trace : List (program settings).Event} {system : (program settings).System}

theorem sound_of_run (run : Program.Run trace system) :
    system.data.WellFormed settings.shareThreshold ∧
      ∀ call ∈ system.calls, (partOf call).Sound settings system.data :=
  run.invariant (program_invariant settings)

/-- In every state of every run the ledger is well formed, and claims only advance. -/
theorem invariant_of_run (run : Program.Run trace system) :
    system.data.WellFormed settings.shareThreshold ∧
      ∀ event next, Program.Step system event next → system.data.Advances next.data := by
  obtain ⟨wellFormed, sound⟩ := sound_of_run run
  refine ⟨wellFormed, ?_⟩
  intro event next step
  cases step with
  | arrive request now => exact .refl _
  | stop => exact .refl _
  | move move running data free told =>
      rw [← data] at wellFormed sound
      have soundCall := sound _ (List.mem_of_getElem? running)
      rw [← data]
      exact (move_step move).change.advances wellFormed soundCall

theorem invariant_of_busy_run :
    ∃ (trace : List (program busySettings).Event) (first second : ClaimSummary),
      Program.Run trace (busySystem first second) ∧
        (busySystem first second).data.WellFormed 2 ∧
        ∀ event next, Program.Step (busySystem first second) event next →
          (busySystem first second).data.Advances next.data := by
  obtain ⟨first, second, _, _, serial⟩ := serial_busyCalls
  obtain ⟨trace, run⟩ := reachable_busySystem serial
  exact ⟨trace, first, second, run, invariant_of_run run⟩

end MiningPool.Ledger
