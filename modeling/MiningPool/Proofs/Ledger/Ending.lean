/-
Module: MiningPool.Proofs.Ledger.Ending
Purpose: why cycles end, and which failures they outlast.
Main exports: Await.Explains, Audit.explains, Rotation.explains, Cycle.of_resume_eq_ok,
  Ledger.Ending, Ledger.ending_of_run, Ledger.cycle_of_run
-/
import MiningPool.Proofs.Claim.OwnFailure
import MiningPool.Proofs.Ledger.Failure
import MiningPool.Proofs.Ledger.Trust

/-!
A round of a cycle fails with what a collaborator has answered, because of the order to stop, or on its own;
on its own it fails with a time limit or with a fatal error. A cycle takes every error that reports a
cancellation for the order to stop. So it ends without an error only after that order, or if a collaborator
has reported to have been cancelled, and with an error only if that is fatal. After every other failure it
waits for its next tick, with the ledger as it was before the operation that failed.
-/

namespace MiningPool

/-! ### Causes of failures -/

/-- Where the failure of a step comes from. -/
inductive Await.Explains {I : Interface} (await : Await I) (reply : await.Reply) (error : Error) :
    Prop where
  | stopped (cancelled : await.Cancelled reply)
  | answered (query : I.Query) (exchange : await.exchange? reply = some ⟨query, .error error⟩)
  | expired (kind : error.kind = .timeout)
  | own (fatal : error.fatal = true)

/-- Only the order to stop and collaborators tell of a cancellation. -/
theorem Await.Explains.of_cancelled {I : Interface} {await : Await I} {reply : await.Reply}
    {error : Error} (explains : await.Explains reply error) (kind : error.kind = .cancelled) :
    await.Cancelled reply ∨ ∃ query, await.exchange? reply = some ⟨query, .error error⟩ := by
  cases explains with
  | stopped cancelled => exact .inl cancelled
  | answered query exchange => exact .inr ⟨query, exchange⟩
  | expired timeout =>
      rw [kind] at timeout
      cases timeout
  | own fatal =>
      rw [Error.fatal, kind] at fatal
      cases fatal

variable {settings : LedgerSettings} {ledger : Ledger} {now : Instant} {error : Error}

theorem Confirmation.explains {settings : WatchSettings} {tx : Hash256} {phase : Phase}
    {reply : (await tx phase).Reply}
    (resumed : resume settings tx now phase reply = .inr (.error error)) :
    (await tx phase).Explains reply error := by
  cases phase with
  | waiting watch =>
      cases reply with
      | due => cases resumed
      | cancelled => exact .stopped rfl
  | polling watch =>
      cases reply with
      | ok confirmed =>
          cases confirmed with
          | true => cases resumed
          | false =>
              cases eq_of_goOn_eq resumed
              exact .expired rfl
      | error failure =>
          simp only [resume, answered] at resumed
          split at resumed
          · cases eq_of_goOn_eq resumed
            exact .expired rfl
          · cases resumed
            exact .answered _ rfl

theorem Retry.explains {I : Interface} {policy : RetryPolicy} {query : I.Query} {phase : Phase}
    {reply : (await query phase).Reply}
    (resumed : resume policy query phase reply = .inr (.error error)) :
    (await query phase).Explains reply error :=
  .answered query (resume_eq_inr resumed)

theorem Proving.explains {datasets : DatasetLocator} {phase : Phase} {reply : (await phase).Reply}
    (resumed : resume datasets phase reply = .inr (.error error)) :
    (await phase).Explains reply error := by
  rcases of_resume_eq_error resumed with
    ⟨query, answered⟩ | ⟨audited, indices, path, content, rfl, _, failed⟩
  · exact .answered query answered
  · exact .own (failsFatally_finish audited indices content error failed)

/-! ### Audits -/

namespace Audit

theorem fatal_of_prove {target : AuditTarget} {index : Nat}
    (refused : prove target index = .inr (.error error)) : error.fatal = true := by
  rw [prove] at refused
  split at refused
  · rename_i failure failed
    cases refused
    exact Proving.failsFatally_start _ _ _ failed
  · cases refused

theorem fatal_of_choose {target : AuditTarget}
    (refused : choose settings target = .inr (.error error)) : error.fatal = true := by
  rw [choose] at refused
  split at refused
  · cases refused
    rfl
  · split at refused
    · cases refused
    · split at refused
      · exact fatal_of_prove refused
      · cases refused
        rfl

theorem explains {phase : Phase} {reply : (await phase).Reply}
    (resumed : (resume settings ledger now phase reply).2 = .inr (.error error)) :
    (await phase).Explains reply error := by
  cases failsIn_of_resume resumed with
  | claim failed => exact Confirmation.explains failed
  | choose chosen => exact .own (fatal_of_choose chosen)
  | seed failed => exact Retry.explains failed
  | prove seed begun => exact .own (fatal_of_prove begun)
  | gather failed => exact Proving.explains failed
  | submit failed => exact Retry.explains failed
  | proof failed => exact Confirmation.explains failed

end Audit

/-! ### Claims on their way to the contract -/

namespace Ledger

theorem failsFatally_currentSlot (ledger : Ledger) : FailsFatally ledger.currentSlot := by
  rw [currentSlot]
  split
  · exact .ok _
  · exact .error rfl

theorem failsFatally_due (ledger : Ledger) (threshold : Nat) :
    FailsFatally (ledger.due threshold) := by
  refine ledger.failsFatally_currentSlot.bind fun slot => ?_
  split
  · exact .ok none
  · exact (Claim.failsFatally_summary _).bind fun _ => .ok _

theorem failsFatally_add (ledger : Ledger) (share : Share) : FailsFatally (ledger.add share).2 := by
  simp only [add]
  split
  · rename_i failed
    exact .error (failsFatally_currentSlot _ _ failed)
  · exact .ok ()

end Ledger

namespace Rotation

theorem fatal_of_look (refused : look settings ledger = .inr (.error error)) :
    error.fatal = true := by
  rw [look] at refused
  split at refused
  · rename_i failed
    cases refused
    exact ledger.failsFatally_due _ _ failed
  · cases refused
  · cases refused

theorem explains {phase : Phase} {reply : (await phase).Reply}
    (resumed : (resume settings ledger phase reply).2 = .inr (.error error)) :
    (await phase).Explains reply error := by
  have step : Step settings ledger phase _ _ _ := resume_step phase reply
  rw [resumed] at step
  generalize (resume settings ledger phase reply).1 = after at step
  generalize exchange : (await phase).exchange? reply = answer? at step
  cases step with
  | look looked => exact .own (fatal_of_look looked)
  | add new added looked => exact .own (fatal_of_look looked)
  | lose new lost => exact .own (ledger.failsFatally_add _ _ lost)
  | refuse error => exact .answered _ exchange

end Rotation

/-! ### Rounds of a cycle -/

namespace Cycle

/-- The ticks of the cycle. -/
def Phase.ticker : Phase → Ticker
  | waiting ticker => ticker
  | rotating ticker _ => ticker
  | auditing ticker _ => ticker

theorem settle_of_cancelled {ticker : Ticker} (kind : error.kind = .cancelled) :
    settle ticker error = .inr (.ok ()) := by
  rw [settle, if_pos kind]

/-- Other failures than the two are waited out. -/
theorem settle_eq_waiting {ticker : Ticker} (notCancelled : error.kind ≠ .cancelled)
    (notFatal : error.fatal = false) : settle ticker error = .inl (.waiting ticker) := by
  rw [settle, if_neg notCancelled, if_neg (Bool.not_eq_true _ ▸ notFatal)]

/-- A failure that ends the cycle without an error goes back to the order to stop or to a collaborator. -/
theorem of_settle_eq_ok {ticker : Ticker} {await : Await pool} {reply : await.Reply}
    (explains : await.Explains reply error) (ended : settle ticker error = .inr (.ok ())) :
    await.Cancelled reply ∨ ∃ query error,
      await.exchange? reply = some ⟨query, .error error⟩ ∧ error.kind = .cancelled := by
  have kind : error.kind = .cancelled := by
    rw [settle] at ended
    split at ended
    · assumption
    · split at ended <;> cases ended
  rcases explains.of_cancelled kind with told | ⟨query, exchange⟩
  · exact .inl told
  · exact .inr ⟨query, error, exchange, kind⟩

/-- A cycle ends without an error if it is told to stop or if a collaborator has been cancelled. -/
theorem of_resume_eq_ok {phase : Phase} {reply : (await phase).Reply}
    (ended : (resume settings ledger now phase reply).2 = .inr (.ok ())) :
    (await phase).Cancelled reply ∨ ∃ query error,
      (await phase).exchange? reply = some ⟨query, .error error⟩ ∧ error.kind = .cancelled := by
  cases phase with
  | waiting ticker =>
      cases reply with
      | due => cases ended
      | cancelled => exact .inl rfl
  | rotating ticker phase =>
      simp only [resume] at ended
      split at ended
      · cases ended
      · rename_i failed
        exact of_settle_eq_ok (Rotation.explains (congrArg Prod.snd failed)) ended
      · cases ended
  | auditing ticker phase =>
      simp only [resume] at ended
      split at ended
      · cases ended
      · rename_i failed
        exact of_settle_eq_ok (Audit.explains (congrArg Prod.snd failed)) ended
      · cases ended

theorem resume_of_rotation {ticker : Ticker} {phase : Rotation.Phase}
    {reply : (await (.rotating ticker phase)).Reply}
    (failed : (Rotation.resume settings ledger phase reply).2 = .inr (.error error)) :
    (resume settings ledger now (.rotating ticker phase) reply).2 = settle ticker error := by
  simp only [resume]
  generalize Rotation.resume settings ledger phase reply = result at failed ⊢
  obtain ⟨after, _⟩ := result
  cases failed
  rfl

theorem resume_of_audit {ticker : Ticker} {phase : Audit.Phase}
    {reply : (await (.auditing ticker phase)).Reply}
    (failed : (Audit.resume settings ledger now phase reply).2 = .inr (.error error)) :
    (resume settings ledger now (.auditing ticker phase) reply).2 = settle ticker error := by
  simp only [resume]
  generalize Audit.resume settings ledger now phase reply = result at failed ⊢
  obtain ⟨after, _⟩ := result
  cases failed
  rfl

end Cycle

/-! ### Runs -/

namespace Ledger

variable {trace : List (program settings).Event} {system next : (program settings).System}
  {move : (program settings).Move}

/-- The submission or the audit that ends with the step has failed. -/
def Fails (move : (program settings).Move) (error : Error) : Prop :=
  endedBy? move = some (.rotated (.error error)) ∨ endedBy? move = some (.audited (.error error))

/-- The call has ended without an error in a step with which a collaborator has reported a cancellation. -/
def ReportedCancelled (trace : List (program settings).Event) (caller : Nat) : Prop :=
  ∃ (move : (program settings).Move) (query : PoolQuery) (error : Error),
    .moved move ∈ trace ∧ move.caller = caller ∧ move.next.stage = .inr (.ended (.ok ())) ∧
      move.exchange? = some ⟨query, .error error⟩ ∧ error.kind = .cancelled

/-- Why a cycle has come to this end. -/
def Ending (trace : List (program settings).Event) (stopped : Bool) (caller : Nat) :
    Except Error Unit → Prop
  | .ok () => stopped = true ∨ ReportedCancelled trace caller
  | .error error => error.fatal = true

theorem Ending.concat {stopped : Bool} {caller : Nat} {outcome : Except Error Unit}
    (ending : Ending trace stopped caller outcome) (event : (program settings).Event) :
    Ending (trace ++ [event]) stopped caller outcome := by
  cases outcome with
  | error error => exact ending
  | ok _ =>
      rcases ending with stopped | ⟨move, query, error, member, reported⟩
      · exact .inl stopped
      · exact .inr ⟨move, query, error, List.mem_append_left _ member, reported⟩

theorem of_cycle_eq_ok (told : move.next.stage = .inr (.ended (.ok ()))) :
    ((program settings).activity.await move.phase).Cancelled move.reply ∨ ∃ query error,
      move.exchange? = some ⟨query, .error error⟩ ∧ error.kind = .cancelled := by
  obtain ⟨caller, request, phase, data, now, reply⟩ := move
  change (resume settings data now phase reply).2 = .inr (.ended (.ok ())) at told
  cases phase with
  | rotating phase =>
      obtain ⟨_, _, other⟩ := exists_of_map_eq_inr told
      cases other
  | auditing phase =>
      obtain ⟨_, _, other⟩ := exists_of_map_eq_inr told
      cases other
  | cycling phase =>
      change Sum.map Phase.cycling Result.ended (Cycle.resume settings data now phase reply).2 =
        .inr (.ended (.ok ())) at told
      obtain ⟨outcome, found, same⟩ := exists_of_map_eq_inr told
      cases same
      exact Cycle.of_resume_eq_ok found

/-- The step with which a round fails decides about the cycle. -/
theorem stage_of_fails {phase : Cycle.Phase} (cycling : move.phase = .cycling phase)
    (fails : Fails move error) :
    move.next.stage = (Cycle.settle phase.ticker error).map .cycling .ended := by
  obtain ⟨caller, request, _, data, now, reply⟩ := move
  cases cycling
  have settled : (Cycle.resume settings data now phase reply).2 =
      Cycle.settle phase.ticker error := by
    simp only [Fails, endedBy?] at fails
    cases phase with
    | waiting ticker => rcases fails with none | none <;> cases none
    | rotating ticker phase =>
        apply Cycle.resume_of_rotation
        simp only [ended?] at fails
        generalize (Rotation.resume settings data phase reply).2 = result at fails ⊢
        rcases fails with rotated | audited
        · cases result <;> cases rotated
          rfl
        · cases result <;> cases audited
    | auditing ticker phase =>
        apply Cycle.resume_of_audit
        simp only [ended?] at fails
        generalize (Audit.resume settings data now phase reply).2 = result at fails ⊢
        rcases fails with rotated | audited
        · cases result <;> cases rotated
        · cases result <;> cases audited
          rfl
  exact congrArg (Sum.map Phase.cycling Result.ended) settled

/-- A request for a cycle is served by one. -/
def Cycles (call : (program settings).Call) : Prop :=
  call.request = .cycle →
    (∃ phase, call.stage = .inl (.cycling phase)) ∨ ∃ outcome, call.stage = .inr (.ended outcome)

theorem cycles_invariant (settings : LedgerSettings) :
    Program.Invariant (program settings) (fun _ => True) fun _ call => Cycles call where
  initial := trivial
  arrive := by
    intro ledger request now _ isCycle
    cases isCycle
    exact .inl ⟨_, rfl⟩
  own := by
    intro move _ cycles
    refine ⟨trivial, fun isCycle => ?_⟩
    obtain ⟨caller, request, whole, data, now, reply⟩ := move
    rcases cycles isCycle with ⟨phase, stage⟩ | ⟨outcome, stage⟩
    · cases stage
      change (∃ next, (resume settings data now (.cycling phase) reply).2 = .inl (.cycling next)) ∨
        ∃ outcome, (resume settings data now (.cycling phase) reply).2 = .inr (.ended outcome)
      simp only [resume]
      cases (Cycle.resume settings data now phase reply).2 with
      | inl next => exact .inl ⟨next, rfl⟩
      | inr outcome => exact .inr ⟨outcome, rfl⟩
    · cases stage
  others _ _ _ _ cycles _ := cycles

theorem cycles_of_run (run : Program.Run trace system) : ∀ call ∈ system.calls, Cycles call :=
  (run.invariant (cycles_invariant settings)).2

/-- The step with which a cycle ends is the reason for it. -/
theorem ending_of_told (step : Program.Step system (.moved move) next) {outcome : Except Error Unit}
    (told : move.next.stage = .inr (.ended outcome)) :
    Ending (trace ++ [.moved move]) system.stopped move.caller outcome := by
  cases outcome with
  | error error => exact (of_cycle_eq_error told).1
  | ok _ =>
      cases step with
      | move move running data free order =>
          rcases of_cycle_eq_ok told with cancelled | ⟨query, error, reported⟩
          · exact .inl (order cancelled).1
          · have last : .moved move ∈ trace ++ [.moved move] :=
              List.mem_append_right _ (List.mem_singleton.2 rfl)
            exact .inr ⟨move, query, error, last, rfl, told, reported⟩

/-- In every system of a run, there is a reason for the end of each cycle that has ended. -/
theorem ending_of_run (run : Program.Run trace system) {caller : Nat} {call : (program settings).Call}
    {outcome : Except Error Unit} (found : system.calls[caller]? = some call)
    (ended : call.stage = .inr (.ended outcome)) :
    Ending trace system.stopped caller outcome := by
  induction run generalizing call with
  | start => cases found
  | @step trace system next event run step ih =>
      cases step with
      | arrive request now =>
          rcases Program.getElem?_calls_arrive found with ⟨_, rfl⟩ | before
          · cases ended
          · exact (ih before ended).concat _
      | stop =>
          have ending := (ih found ended).concat .stopped
          cases outcome with
          | error error => exact ending
          | ok _ => exact .inl rfl
      | move move running data free told =>
          rcases Program.getElem?_calls_move found with ⟨rfl, rfl⟩ | ⟨_, before⟩
          · exact ending_of_told (.move _ move running data free told) ended
          · exact (ih before ended).concat _

/-- A failed operation that has not taken in a share has changed nothing in any of its steps. -/
theorem unchanged_of_fails (run : Program.Run trace system)
    (step : Program.Step system (.moved move) next) (fails : Fails move error)
    (noShare : Request.share? move.request = none) :
    ∀ step ∈ operation move.caller trace ++ [(system.data, next.data)], step.1 = step.2 := by
  rcases fails with rotated | audited
  · intro both member
    have only := onlyTakes_of_failure run step rotated
    rw [noShare] at only
    rw [only both member]
  · exact unchanged_of_failure run step audited

/-- After a failed round the error decides how the call stands. -/
theorem exists_stage_of_fails (run : Program.Run trace system)
    (step : Program.Step system (.moved move) next) (isCycle : move.request = .cycle)
    (fails : Fails move error) :
    ∃ ticker, next.calls[move.caller]? =
      some ⟨.cycle, (Cycle.settle ticker error).map .cycling .ended⟩ := by
  cases step with
  | move move running data free told =>
      have inside : move.caller < system.calls.length := (List.getElem?_eq_some_iff.1 running).1
      have cycles := cycles_of_run run _ (List.mem_of_getElem? running) isCycle
      rcases cycles with ⟨phase, stage⟩ | ⟨outcome, stage⟩
      · refine ⟨phase.ticker, ?_⟩
        rw [List.getElem?_set_self inside]
        have moved := stage_of_fails (Sum.inl.inj stage) fails
        exact congrArg some (congrArg₂ Program.Call.mk isCycle moved)
      · cases stage

/-- A cycle ends without an error only if everything has been told to stop or if a collaborator has reported
a cancellation, and with an error only if that is fatal. A failed operation of it changes nothing. A
cancellation then ends the cycle, whoever has reported it, and every failure that is not fatal either makes
the cycle wait for its next tick. -/
theorem cycle_of_run (run : Program.Run trace system) :
    (∀ (caller : Nat) (call : (program settings).Call), system.calls[caller]? = some call →
      (call.stage = .inr (.ended (.ok ())) →
        system.stopped = true ∨ ReportedCancelled trace caller) ∧
      ∀ error, call.stage = .inr (.ended (.error error)) → error.fatal = true) ∧
    ∀ (move : (program settings).Move) (next : (program settings).System) (error : Error),
      Program.Step system (.moved move) next → move.request = .cycle → Fails move error →
        (error.kind = .cancelled →
          next.calls[move.caller]? = some ⟨.cycle, .inr (.ended (.ok ()))⟩) ∧
        (error.kind ≠ .cancelled → error.fatal = false →
          ∃ ticker, next.calls[move.caller]? = some ⟨.cycle, .inl (.cycling (.waiting ticker))⟩) ∧
        (∀ step ∈ operation move.caller trace ++ [(system.data, next.data)], step.1 = step.2) ∧
        ∀ early since, trace = early ++ since → operation move.caller early = [] →
          Alone move.caller since → next.data = ledgerAfter early := by
  constructor
  · intro caller call found
    exact ⟨fun ended => ending_of_run run found ended, fun _ ended => ending_of_run run found ended⟩
  · intro move next error step isCycle fails
    obtain ⟨ticker, stage⟩ := exists_stage_of_fails run step isCycle fails
    refine ⟨?_, ?_, ?_, ?_⟩
    · intro kind
      rwa [Cycle.settle_of_cancelled kind] at stage
    · intro notCancelled notFatal
      rw [Cycle.settle_eq_waiting notCancelled notFatal] at stage
      exact ⟨ticker, stage⟩
    · exact unchanged_of_fails run step fails (by rw [isCycle]; rfl)
    · intro early since split idle alone
      obtain ⟨ofRotated, ofAudited⟩ := leftBy_of_failure run step split idle alone
      rcases fails with rotated | audited
      · have left := ofRotated rotated
        rwa [isCycle] at left
      · exact ofAudited audited

/-- The request to add the share, which the contract has refused to file. -/
def refusedCall (settings : LedgerSettings) (share : Share) (error : Error) : (program settings).Call :=
  ⟨.add share, .inr (.rotated (.error error))⟩

/-- A cycle that asks the contract once more to take the claim of the share. -/
def resubmitting (settings : LedgerSettings) (share : Share) (ticker : Ticker) : Phase :=
  .cycling (.rotating ticker (.submitting (onlyRotation share) (Retry.start settings.retry)))

/-- When the first round of a cycle begins that has been started at once. -/
def firstRound : Instant := promptSettings.submitInterval

/-- After a refusal, a cycle submits the claim of the share in its first round. -/
theorem reachable_resubmitting :
    ∃ ticker, Program.Reachable
      ⟨(fresh.add plainShare).1, [refusedCall promptSettings plainShare refusal] ++
        [⟨.cycle, .inl (resubmitting promptSettings plainShare ticker)⟩], false⟩ := by
  let ticker : Ticker := (Ticker.start promptSettings.submitInterval 0).take 0
  have idle : ∀ call ∈ [refusedCall promptSettings plainShare refusal], call.held = [] := by
    intro call member
    rw [List.mem_singleton.1 member]
    rfl
  obtain ⟨trace, run⟩ := reachable_onlySubmitting promptSettings (Nat.le_refl 1) plainShare
  have submitting : Program.ReachableAfter trace
      ⟨(fresh.add plainShare).1, [] ++ [onlySubmitting promptSettings plainShare], false⟩ :=
    run.reachableAfter
  have refused : Program.ReachableAfter trace
      ⟨(fresh.add plainShare).1, [refusedCall promptSettings plainShare refusal], false⟩ :=
    submitting.move_last (fun _ member => nomatch member) 0 (.error refusal)
      (Await.free_of_lockless rfl) id rfl
  have arrived : Program.ReachableAfter trace
      ⟨(fresh.add plainShare).1, [refusedCall promptSettings plainShare refusal] ++
        [⟨.cycle, .inl (.cycling (.waiting ticker))⟩], false⟩ := refused.arrive .cycle 0
  have entering : Program.ReachableAfter trace
      ⟨(fresh.add plainShare).1, [refusedCall promptSettings plainShare refusal] ++
        [⟨.cycle, .inl (.cycling (.rotating (ticker.take firstRound) (.entering none)))⟩], false⟩ :=
    arrived.move_last idle firstRound TickOutcome.due (Await.free_of_lockless rfl)
      (fun cancelled => nomatch cancelled) rfl
  have entered : resume promptSettings (fresh.add plainShare).1 firstRound
      (.cycling (.rotating (ticker.take firstRound) (.entering none))) () =
      ((fresh.add plainShare).1,
        .inl (resubmitting promptSettings plainShare (ticker.take firstRound))) := by
    simp only [resume, Cycle.resume, Rotation.resume, Rotation.enter]
    rw [look_onlyRotation (Nat.le_refl 1)]
    rfl
  obtain ⟨late, whole⟩ :=
    entering.move_last idle firstRound () (fun _ _ => List.not_mem_nil) id entered
  exact ⟨ticker.take firstRound, trace ++ late, whole⟩

/-- A round whose claim the contract refuses is waited out; if the contract reports a cancellation, the
cycle ends without an order to stop. -/
theorem cycle_of_resubmitting_run :
    ∃ (trace : List (program promptSettings).Event)
      (system waiting ended : (program promptSettings).System)
      (refused cancelled : (program promptSettings).Move),
      Program.Run trace system ∧ Program.Step system (.moved refused) waiting ∧
        Program.Step system (.moved cancelled) ended ∧
        (∃ ticker, waiting.calls[1]? = some ⟨.cycle, .inl (.cycling (.waiting ticker))⟩) ∧
        ended.calls[1]? = some ⟨.cycle, .inr (.ended (.ok ()))⟩ ∧ ended.stopped = false ∧
        ReportedCancelled (trace ++ [.moved cancelled]) 1 := by
  obtain ⟨ticker, trace, run⟩ := reachable_resubmitting
  let move (answer : Except Error Hash256) : (program promptSettings).Move :=
    ⟨1, .cycle, resubmitting promptSettings plainShare ticker, (fresh.add plainShare).1, firstRound,
      answer⟩
  let system : (program promptSettings).System :=
    ⟨(fresh.add plainShare).1, [refusedCall promptSettings plainShare refusal] ++
      [⟨.cycle, .inl (resubmitting promptSettings plainShare ticker)⟩], false⟩
  have refusing := Program.Step.move system (move (.error refusal)) rfl rfl
    (fun _ taken => nomatch taken) (fun cancelled => cancelled.elim)
  have cancelling := Program.Step.move system (move (.error (.reported .cancelled "gone"))) rfl rfl
    (fun _ taken => nomatch taken) (fun cancelled => cancelled.elim)
  obtain ⟨_, fails⟩ := cycle_of_run run
  obtain ⟨_, waits, _⟩ := fails _ _ refusal refusing rfl (.inl rfl)
  obtain ⟨ends, _⟩ := fails _ _ (.reported .cancelled "gone") cancelling rfl (.inl rfl)
  obtain ⟨ending, _⟩ := cycle_of_run (run.step cancelling)
  refine ⟨trace, system, _, _, _, _, run, refusing, cancelling,
    waits (fun same => nomatch same) rfl, ends rfl, rfl, ?_⟩
  exact ((ending 1 _ (ends rfl)).1 rfl).resolve_left Bool.false_ne_true

end Ledger

end MiningPool
