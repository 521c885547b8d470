/-
Module: MiningPool.Proofs.Work.Program
Purpose: a pool that serves many miners at once, as a program over shared data.
Main exports: Pool.program, Pool.partAfter, Pool.resume_change, Pool.resume_sound
-/
import MiningPool.Proofs.Ledger.Shares
import MiningPool.Proofs.Work.Service

/-!
Miners ask for work, hand in solutions and report their hashrate. Besides, claims are submitted and audited
on request and at regular intervals, but no share comes in this way. To the ledger, taking in the share of
a miner looks like any other rotation, so what is known of the steps that change a ledger can be used here.

That the pool has told everything to stop is part of its state. To the cycles this order is one like any
other: it reaches them at some time after it has been given, as an event of its own.
-/

namespace MiningPool.Pool

/-- What is asked of a pool. -/
inductive Request where
  | serve (call : Service.Call)
  /-- Look after the claims, without a new share. -/
  | tend (request : Ledger.Request) (shareless : request.share? = none)

inductive Phase where
  | serving (phase : Service.Phase)
  | tending (phase : Ledger.Phase)

inductive Result where
  | answered (outcome : Except Error Service.Answer)
  | tended (result : Ledger.Result)

def begin (settings : LedgerSettings) (state : PoolState) (now : Instant) : Request → Phase ⊕ Result
  | .serve call => (Service.begin state call).map .serving .answered
  | .tend request _ => .inl (.tending (Ledger.begin settings request now))

def await : Phase → Await pool
  | .serving phase => Service.await phase
  | .tending phase => Ledger.await phase

def resume (settings : LedgerSettings) (shareDifficulty : Nat) (state : PoolState) (now : Instant) :
    (phase : Phase) → (await phase).Reply → PoolState × (Phase ⊕ Result)
  | .serving phase, reply =>
    let (state, next) := Service.resume settings shareDifficulty state phase reply
    (state, next.map .serving .answered)
  | .tending phase, reply =>
    let (ledger, next) := Ledger.resume settings state.ledger now phase reply
    ({ state with ledger }, next.map .tending .tended)

/-- What becomes of the share of a miner, when that is settled with a step. -/
def rotated? (settings : LedgerSettings) (state : PoolState) :
    (phase : Phase) → (await phase).Reply → Option (Except Error Rotation.Outcome)
  | .serving phase, reply => Service.rotated? settings state phase reply
  | .tending _, _ => none

/-- What an activity does with the ledger. -/
def Phase.part : Phase → Ledger.Part
  | serving (.keeping phase) => .rotation phase
  | serving _ => .idle
  | tending phase => phase.part

/-- What an activity does with the ledger after a step. -/
def partAfter : Phase ⊕ Result → Ledger.Part
  | .inl phase => phase.part
  | .inr _ => .idle

theorem locks_await (phase : Phase) : (await phase).locks = phase.part.locks := by
  cases phase with
  | serving phase => cases phase <;> rfl
  | tending phase => exact Ledger.locks_await phase

theorem partAfter_tending (next : Ledger.Phase ⊕ Ledger.Result) :
    partAfter (next.map .tending .tended) = Ledger.partAfter next := by
  cases next <;> rfl

variable {settings : LedgerSettings} {shareDifficulty : Nat} {state after : PoolState} {now : Instant}
  {exchange : Option (Exchange pool)} {outcome? : Option (Except Error Rotation.Outcome)}

/-! ### The ledger -/

/-- Answering a miner changes the ledger only by keeping a share. -/
theorem change_of_service {phase : Service.Phase} {next : Service.Next}
    (step : Service.Step settings shareDifficulty state phase exchange after next outcome?) :
    Ledger.Part.Change settings state.ledger (Phase.part (.serving phase)) exchange after.ledger := by
  have idle : ∀ exchange, Ledger.Part.Change settings state.ledger .idle exchange state.ledger :=
    fun exchange => .keep (by rintro share ⟨⟩) (by rintro rotation retry tx ⟨⟩)
  cases step with
  | fetched outcome =>
      rw [Service.fetched_ledger]
      exact idle _
  | classified share powHash outcome => exact idle _
  | forwarded share powHash verdict =>
      rw [Service.forwarded_ledger]
      exact idle _
  | rotation step => exact Ledger.Part.change_of_rotation step
  | rotated step =>
      rw [Service.settle_ledger]
      exact Ledger.Part.change_of_rotation step
  | reported rate id outcome => exact idle _

theorem resume_change (phase : Phase) (reply : (await phase).Reply) :
    Ledger.Part.Change settings state.ledger phase.part ((await phase).exchange? reply)
      (resume settings shareDifficulty state now phase reply).1.ledger := by
  cases phase with
  | serving phase => exact change_of_service (Service.resume_step phase reply)
  | tending phase => exact (Ledger.resume_step phase reply).change

/-- After a step that answers nothing yet, a share is entering, or goes on being kept. -/
theorem sound_of_service {phase : Service.Phase} {next : Service.Next}
    (sound : (Phase.part (.serving phase)).Sound settings state.ledger)
    (step : Service.Step settings shareDifficulty state phase exchange after next outcome?) :
    (partAfter (next.map .serving .answered)).Sound settings after.ledger := by
  cases step with
  | fetched outcome => trivial
  | classified share powHash outcome => rcases outcome with error | _ | _ | _ <;> trivial
  | forwarded share powHash verdict => trivial
  | rotation step => exact step.sound sound
  | rotated step => trivial
  | reported rate id outcome => trivial

theorem resume_sound (phase : Phase) (reply : (await phase).Reply)
    (wellFormed : state.ledger.WellFormed settings.shareThreshold)
    (sound : phase.part.Sound settings state.ledger) :
    (partAfter (resume settings shareDifficulty state now phase reply).2).Sound settings
      (resume settings shareDifficulty state now phase reply).1.ledger := by
  cases phase with
  | serving phase => exact sound_of_service sound (Service.resume_step phase reply)
  | tending phase =>
      have step : Ledger.Part.Step settings state.ledger phase.part _
          (Ledger.resume settings state.ledger now phase reply).1 _ := Ledger.resume_step phase reply
      have next := step.sound wellFormed sound
      rwa [← partAfter_tending] at next

/-! ### The program -/

/-- An answer does not begin with a share being kept. -/
theorem partAfter_begin (state : PoolState) (call : Service.Call) :
    partAfter ((Service.begin state call).map .serving .answered) = .idle := by
  cases call with
  | getWork => rfl
  | submitWork nonce powHash mixDigest =>
      simp only [Service.begin]
      split <;> rfl
  | submitHashrate rate id => rfl

/-- What is held after a step of answering a miner has been held before or was taken with it. -/
theorem held_of_service {phase : Service.Phase} {next : Service.Phase}
    (step : Service.Step settings shareDifficulty state phase exchange after (.inl next) outcome?) :
    ∀ lock ∈ (Phase.part (.serving next)).held,
      lock ∈ (Phase.part (.serving phase)).held ∨ lock ∈ (Phase.part (.serving phase)).locks := by
  intro lock member
  generalize result : Sum.inl next = stage at step
  cases step with
  | fetched outcome => cases result
  | classified share powHash outcome =>
      rcases Service.classified_eq_inl result.symm with ⟨_, rfl⟩ | ⟨_, rfl⟩ <;> cases member
  | forwarded share powHash verdict => cases result
  | rotation step =>
      cases result
      rw [(Ledger.Part.held_rotation _).1 lock member]
      exact (Ledger.Part.held_rotation _).2
  | rotated step => cases result
  | reported rate id outcome => cases result

/-- A pool that is used by many at once. Only the cycles heed the order to stop. -/
abbrev program (settings : LedgerSettings) (shareDifficulty : Nat) : Program pool PoolState where
  Request := Request
  Phase := Phase
  Result := Result
  initial := .fresh
  begin request state now := begin settings state now request
  activity := ⟨await, resume settings shareDifficulty⟩
  held phase := phase.part.held
  heedsStop
    | .tend .cycle _ => true
    | _ => false
  held_begin := by
    intro request state now phase begun
    cases request with
    | serve call =>
        have idle : partAfter (begin settings state now (.serve call)) = .idle :=
          partAfter_begin state call
        rw [begun] at idle
        exact congrArg Ledger.Part.held idle
    | tend request shareless =>
        cases begun
        cases request <;> rfl
  held_resume := by
    intro state now phase reply next resumed lock member
    rw [locks_await]
    cases phase with
    | serving phase =>
        have step : Service.Step settings shareDifficulty state phase _ _ _ _ :=
          Service.resume_step phase reply
        simp only [resume] at resumed
        revert step resumed
        generalize Service.resume settings shareDifficulty state phase reply = result
        obtain ⟨after, served | answer⟩ := result
        · rintro ⟨⟩ step
          exact held_of_service step lock member
        · rintro ⟨⟩
    | tending phase =>
        have step : Ledger.Part.Step settings state.ledger phase.part _
            (Ledger.resume settings state.ledger now phase reply).1 _ :=
          Ledger.resume_step phase reply
        simp only [resume] at resumed
        revert step resumed
        generalize Ledger.resume settings state.ledger now phase reply = result
        obtain ⟨after, tended | answer⟩ := result
        · rintro ⟨⟩ step
          exact step.held lock member
        · rintro ⟨⟩

end MiningPool.Pool
