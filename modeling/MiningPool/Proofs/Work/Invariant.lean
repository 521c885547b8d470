/-
Module: MiningPool.Proofs.Work.Invariant
Purpose: the claims of a pool are well formed at every time, and calls only do what they are there for.
Main exports: Pool.Fits, Pool.sound_of_run, Pool.stopped_iff_of_run
-/
import MiningPool.Proofs.Ledger.Arrivals
import MiningPool.Proofs.Work.Program

/-!
What is relied on in the ledger holds however many miners are served at once, because their calls take the
same locks as everybody else. Who looks after the claims never waits with a share, and who asks for work or
reports a hashrate never comes near the ledger.
-/

namespace MiningPool.Pool

variable {settings : LedgerSettings} {shareDifficulty : Nat}
  {trace : List (program settings shareDifficulty).Event}
  {system : (program settings shareDifficulty).System}
  {move : (program settings shareDifficulty).Move}

/-! ### The steps of a call -/

/-- What a call does with the ledger. -/
def partOf (call : (program settings shareDifficulty).Call) : Ledger.Part := partAfter call.stage

/-- What becomes of the share of a miner, when that is settled with a step of its call. -/
def rotatedBy? (move : (program settings shareDifficulty).Move) :
    Option (Except Error Rotation.Outcome) :=
  rotated? settings move.data move.phase move.reply

theorem held_eq (call : (program settings shareDifficulty).Call) :
    call.held = (partOf call).held := by
  obtain ⟨request, phase | result⟩ := call <;> rfl

theorem move_change (move : (program settings shareDifficulty).Move) :
    Ledger.Part.Change settings move.data.ledger (partOf move.call) move.exchange?
      move.after.ledger :=
  resume_change move.phase move.reply

theorem apart_of_move {call : (program settings shareDifficulty).Call} (apart : move.Apart call) :
    (partOf move.call).Apart (partOf call) :=
  .of_move (held_eq move.call) (locks_await move.phase) (held_eq call) apart

/-- The step of a call that answers a miner. -/
theorem service_step {phase : Service.Phase} (serving : move.phase = .serving phase) :
    ∃ next, Service.Step settings shareDifficulty move.data phase move.exchange? move.after next
      (rotatedBy? move) ∧ move.next = ⟨move.request, next.map .serving .answered⟩ := by
  obtain ⟨caller, request, _, data, now, reply⟩ := move
  cases serving
  exact ⟨_, Service.resume_step phase reply, rfl⟩

/-- The step of a call that looks after the claims. -/
theorem tending_step {phase : Ledger.Phase} (tending : move.phase = .tending phase) :
    ∃ after next, move.after = { move.data with ledger := after } ∧ rotatedBy? move = none ∧
      Ledger.Part.Step settings move.data.ledger phase.part move.exchange? after
        (Ledger.partAfter next) ∧ move.next = ⟨move.request, next.map .tending .tended⟩ := by
  obtain ⟨caller, request, _, data, now, reply⟩ := move
  cases tending
  exact ⟨_, _, rfl, rfl, Ledger.resume_step phase reply, rfl⟩

/-! ### What a call is there for -/

/-- Nobody comes to the ledger with a share but those who hand in a solution. -/
inductive Fits : Request → Phase ⊕ Result → Prop where
  | serving {call : Service.Call} {phase : Service.Phase} (serves : Service.Serves call phase) :
      Fits (.serve call) (.inl (.serving phase))
  | answered {call : Service.Call} (outcome : Except Error Service.Answer) :
      Fits (.serve call) (.inr (.answered outcome))
  | tending {request : Ledger.Request} {shareless : request.share? = none} {phase : Ledger.Phase}
      (plain : ∀ share, phase.part ≠ .rotation (.entering (some share))) :
      Fits (.tend request shareless) (.inl (.tending phase))
  | tended {request : Ledger.Request} {shareless : request.share? = none} (result : Ledger.Result) :
      Fits (.tend request shareless) (.inr (.tended result))

theorem fits_begin (request : Request) (state : PoolState) (now : Instant) :
    Fits request (begin settings state now request) := by
  cases request with
  | serve call =>
      simp only [begin]
      cases begun : Service.begin state call with
      | inl phase => exact .serving (Service.serves_begin begun)
      | inr outcome => exact .answered outcome
  | tend request shareless =>
      apply Fits.tending
      intro share entering
      cases request with
      | add other => cases shareless
      | rotate => cases entering
      | verify => cases entering
      | cycle => cases entering

theorem Fits.next (fits : Fits move.request (.inl move.phase)) :
    Fits move.request move.next.stage := by
  generalize isRequest : move.request = request at fits
  generalize isPhase : (Sum.inl move.phase : Phase ⊕ Result) = stage at fits
  cases fits with
  | serving serves =>
      obtain ⟨next, step, isNext⟩ := service_step (Sum.inl.inj isPhase)
      rw [isNext]
      cases next with
      | inl phase => exact .serving (serves.step step)
      | inr outcome => exact .answered outcome
  | answered outcome => cases isPhase
  | tending plain =>
      obtain ⟨after, next, _, _, step, isNext⟩ := tending_step (Sum.inl.inj isPhase)
      rw [isNext]
      cases next with
      | inl phase =>
          apply Fits.tending
          intro share entering
          have idle : phase.part = .rotation (.entering (some share)) → False := by
            intro entering
            rw [show Ledger.partAfter (.inl phase) = phase.part from rfl, entering] at step
            cases step.of_entering.2
          exact idle entering
      | inr result => exact .tended result
  | tended result => cases isPhase

/-- Whoever waits for the ledger with a share has handed in a solution. -/
theorem Fits.of_entering {request : Request} {stage : Phase ⊕ Result} (fits : Fits request stage)
    {share : Share} (entering : partAfter stage = .rotation (.entering (some share))) :
    (∃ nonce powHash mixDigest, request = .serve (.submitWork nonce powHash mixDigest)) ∧
      stage = .inl (.serving (.keeping (.entering (some share)))) := by
  cases fits with
  | serving serves =>
      cases serves with
      | keeping =>
          cases entering
          exact ⟨⟨_, _, _, rfl⟩, rfl⟩
      | _ => cases entering
  | answered outcome => cases entering
  | tending plain => exact absurd entering (plain share)
  | tended result => cases entering

/-! ### Runs -/

/-- The ledger is well formed, what the activities rely on holds, and they fit their requests. -/
theorem program_invariant (settings : LedgerSettings) (shareDifficulty : Nat) :
    Program.Invariant (program settings shareDifficulty)
      (fun state => state.ledger.WellFormed settings.shareThreshold)
      fun state call => (partOf call).Sound settings state.ledger ∧ Fits call.request call.stage where
  initial := .fresh
  arrive := by
    intro state request now wellFormed
    refine ⟨?_, fits_begin request state now⟩
    cases request with
    | serve call =>
        show (partAfter ((Service.begin state call).map .serving .answered)).Sound _ _
        rw [partAfter_begin]
        trivial
    | tend request shareless =>
        exact ((Ledger.program_invariant settings).arrive request now wellFormed)
  own := by
    intro move wellFormed sound
    refine ⟨(move_change move).wellFormed wellFormed sound.1, ?_, sound.2.next⟩
    exact resume_sound move.phase move.reply wellFormed sound.1
  others := by
    intro move call wellFormed sound otherSound apart
    exact ⟨(move_change move).sound_other wellFormed sound.1 otherSound.1 (apart_of_move apart),
      otherSound.2⟩

theorem sound_of_run (run : Program.Run trace system) :
    system.data.ledger.WellFormed settings.shareThreshold ∧ ∀ call ∈ system.calls,
      (partOf call).Sound settings system.data.ledger ∧ Fits call.request call.stage :=
  run.invariant (program_invariant settings shareDifficulty)

/-- The same for a step of the run. -/
theorem sound_of_moved (run : Program.Run trace system) (moved : .moved move ∈ trace) :
    move.data.ledger.WellFormed settings.shareThreshold ∧
      (partOf move.call).Sound settings move.data.ledger ∧
      Fits move.request (.inl move.phase) := by
  obtain ⟨early, late, rfl⟩ := List.mem_iff_append.1 moved
  obtain ⟨before, _, earlier, step⟩ := run.exists_step
  obtain ⟨wellFormed, sound⟩ := sound_of_run earlier
  cases step with
  | move move running data free told =>
      rw [← data] at wellFormed sound
      exact ⟨wellFormed, sound _ (List.mem_of_getElem? running)⟩

/-! ### The order to stop -/

/-- A step makes the pool stop if with it the claim of a share fails fatally. -/
theorem stopped_iff_of_move (move : (program settings shareDifficulty).Move) :
    move.after.stopped = true ↔ move.data.stopped = true ∨
      ∃ error, rotatedBy? move = some (.error error) ∧ error.fatal = true := by
  cases isPhase : move.phase with
  | serving phase =>
      obtain ⟨next, step, _⟩ := service_step isPhase
      exact step.stopped_iff
  | tending phase =>
      obtain ⟨after, next, isAfter, isNone, _⟩ := tending_step isPhase
      rw [isAfter, isNone]
      simp

/-- The pool stops when the claim of a share has failed fatally, and only then. -/
theorem stopped_iff_of_run (run : Program.Run trace system) :
    system.data.stopped = true ↔ ∃ move, .moved move ∈ trace ∧
      ∃ error, rotatedBy? move = some (.error error) ∧ error.fatal = true := by
  induction run with
  | start => simp [PoolState.fresh]
  | step run step ih =>
      cases step with
      | arrive request now => simpa using ih
      | stop => simpa using ih
      | move move running data free told =>
          rw [stopped_iff_of_move, data, ih]
          simp [or_and_right, exists_or]

end MiningPool.Pool
