/-
Module: MiningPool.Effect.Activity
Purpose: activities that wait for answers, for time and for each other.
Main exports: Interface, Await, Activity, Environment, Activity.run
-/
import MiningPool.Clock.Basic
import MiningPool.Error
import MiningPool.Number.Binary64
import MiningPool.Number.Power

/-!
An activity is a machine: in every state it waits for one thing, and what it is given takes it to another
state or to its result. It may wait for the answer of a collaborator, for a random draw, for some time to
pass, for a tick of a clock, or for a lock. Only a wait for a tick ends early when everything is told to
stop. Several activities may take turns on data that they share; a step that follows a lock has the data
for itself until the activity gives the lock back.

An activity whose arithmetic overflows breaks off: it waits for what never comes, and has no result.

An environment answers what a single activity waits for, so that the activity can be run to its end.
-/

namespace MiningPool

/-- What can be asked of collaborators, and the type of each answer. -/
structure Interface where
  Query : Type
  Answer : Query → Type

/-- What may be held by one activity at a time. -/
inductive Lock where
  /-- The claims and everything that is recorded with them. -/
  | ledger
  /-- The right to audit. -/
  | audit
deriving Repr, DecidableEq

/-- A random number below one, in units of 2⁻⁵³. -/
structure Draw where
  units : Nat
  units_lt : units < 2 ^ (53 : Nat)

namespace Draw

def zero : Draw := ⟨0, by decide⟩

/-- The draw as a floating-point number. -/
def value (draw : Draw) : Binary64 := ⟨draw.units, -53⟩

/-- The milliseconds of a duration times a tenth times the draw, in floating-point arithmetic. -/
def product? (draw : Draw) (duration : Duration) : Option Binary64 := do
  let millis ← Binary64.ofNat? duration.millis
  let part ← millis.mul? Binary64.tenth
  part.mul? draw.value

/-- At random up to a tenth of a duration, in whole milliseconds of at most 64 bits. -/
def jitter (draw : Draw) (duration : Duration) : Duration :=
  match draw.product? duration with
  | some millis => Duration.ofMillis (min millis.floor (2 ^ (64 : Nat) - 1))
  | none => 0

theorem jitter_le (draw : Draw) (duration : Duration) :
    draw.jitter duration ≤ Duration.ofMillis (2 ^ (64 : Nat) - 1) := by
  rw [jitter]
  cases draw.product? duration with
  | none => exact Nat.zero_le _
  | some millis => exact Nat.mul_le_mul_right _ (Nat.min_le_right _ _)

end Draw

/-- How a wait for a tick ends. -/
inductive TickOutcome where
  | due
  /-- Everything was told to stop. -/
  | cancelled
deriving Repr, DecidableEq

/-- What an activity waits for. -/
inductive Await (I : Interface) where
  | ask (query : I.Query)
  | draw
  | pause (duration : Duration)
  | tick (due : Instant)
  | lock (lock : Lock)
  /-- Nothing, for it has broken off. -/
  | never

/-- What it is given. -/
def Await.Reply {I : Interface} : Await I → Type
  | ask query => Except Error (I.Answer query)
  | draw => Draw
  | pause _ => Unit
  | tick _ => TickOutcome
  | lock _ => Unit
  | never => Empty

/-- A machine with states `σ` and a result `α` over shared data `ρ`. -/
structure Activity (I : Interface) (ρ σ α : Type) where
  await : σ → Await I
  /-- The step from a state, given the shared data, the time, and what was waited for. -/
  resume : ρ → Instant → (state : σ) → (await state).Reply → ρ × (σ ⊕ α)

/-- Answers to everything that an activity may wait for, with a memory of type `ω`. -/
structure Environment (I : Interface) (ω : Type) where
  now : ω → Instant
  ask : (query : I.Query) → ω → Except Error (I.Answer query) × ω
  draw : ω → Draw × ω
  pause : Duration → ω → ω
  tick : Instant → ω → TickOutcome × ω

/-- The answer to a wait. Locks are free, because a single activity runs. -/
def Environment.reply? {I : Interface} {ω : Type} (environment : Environment I ω) (memory : ω) :
    (await : Await I) → Option (await.Reply × ω)
  | .ask query => some (environment.ask query memory)
  | .draw => some (environment.draw memory)
  | .pause duration => some ((), environment.pause duration memory)
  | .tick due => some (environment.tick due memory)
  | .lock _ => some ((), memory)
  | .never => none

/-- Only what has broken off waits in vain. -/
theorem Environment.exists_reply?_eq_some {I : Interface} {ω : Type} (environment : Environment I ω)
    (memory : ω) {await : Await I} (waits : await ≠ .never) :
    ∃ reply later, environment.reply? memory await = some (reply, later) := by
  cases await with
  | never => exact absurd rfl waits
  | _ => exact ⟨_, _, rfl⟩

namespace Activity

variable {I : Interface} {ρ σ α ω : Type}

/-- One step, unless the activity has broken off. -/
def step (activity : Activity I ρ σ α) (environment : Environment I ω) (data : ρ) (memory : ω)
    (state : σ) : Option (ρ × ω × (σ ⊕ α)) :=
  match environment.reply? memory (activity.await state) with
  | none => none
  | some (reply, memory) =>
    let (data, next) := activity.resume data (environment.now memory) state reply
    some (data, memory, next)

/-- Runs for at most a number of steps, and to the result if that is reached. -/
def run (activity : Activity I ρ σ α) (environment : Environment I ω) :
    Nat → ρ → ω → σ → Option (α × ρ × ω)
  | 0, _, _, _ => none
  | steps + 1, data, memory, state =>
    match activity.step environment data memory state with
    | some (data, memory, .inl state) => activity.run environment steps data memory state
    | some (data, memory, .inr result) => some (result, data, memory)
    | none => none

/-- Where a number of steps leads, if all of them can be made and none gives the result. -/
def advance (activity : Activity I ρ σ α) (environment : Environment I ω) :
    Nat → ρ → ω → σ → Option (ρ × ω × σ)
  | 0, data, memory, state => some (data, memory, state)
  | steps + 1, data, memory, state =>
    match activity.step environment data memory state with
    | some (data, memory, .inl state) => activity.advance environment steps data memory state
    | _ => none

section

variable {activity : Activity I ρ σ α} {environment : Environment I ω} {steps others : Nat}
  {data after : ρ} {memory later : ω} {state next : σ} {outcome other : α × ρ × ω}

/-- More steps than it takes change nothing. -/
theorem run_add (done : activity.run environment steps data memory state = some outcome)
    (more : Nat) : activity.run environment (steps + more) data memory state = some outcome := by
  induction steps generalizing data memory state with
  | zero => cases done
  | succ steps ih =>
      rw [Nat.add_right_comm, run]
      rw [run] at done
      split at done
      · exact ih done
      · exact done
      · cases done

/-- All runs that reach a result reach the same one. -/
theorem run_unique (done : activity.run environment steps data memory state = some outcome)
    (also : activity.run environment others data memory state = some other) : outcome = other := by
  have one := run_add done others
  rw [Nat.add_comm, run_add also steps] at one
  exact (Option.some.inj one).symm

/-- A run goes on from where its first steps have led. -/
theorem run_of_advance (led : activity.advance environment steps data memory state = some (after, later, next))
    (more : Nat) : activity.run environment (steps + more) data memory state =
      activity.run environment more after later next := by
  induction steps generalizing data memory state with
  | zero =>
      cases led
      rw [Nat.zero_add]
  | succ steps ih =>
      rw [Nat.add_right_comm, run]
      rw [advance] at led
      split at led
      · rename_i stepped
        rw [stepped]
        exact ih led
      · cases led

theorem advance_add
    (led : activity.advance environment steps data memory state = some (after, later, next)) (more : Nat) :
    activity.advance environment (steps + more) data memory state =
      activity.advance environment more after later next := by
  induction steps generalizing data memory state with
  | zero =>
      cases led
      rw [Nat.zero_add]
  | succ steps ih =>
      rw [Nat.add_right_comm, advance]
      rw [advance] at led
      split at led
      · exact ih led
      · cases led

/-! A place without a further step is where the activity has broken off. -/

theorem run_of_stuck (led : activity.advance environment steps data memory state = some (after, later, next))
    (stuck : activity.step environment after later next = none) :
    activity.run environment others data memory state ≠ some outcome := by
  intro done
  have further := run_add done (steps + 1)
  rw [Nat.add_comm, Nat.add_assoc, run_of_advance led, Nat.add_comm, run, stuck] at further
  cases further

theorem advance_unique {last : ρ} {finish : ω} {final : σ}
    (led : activity.advance environment steps data memory state = some (after, later, next))
    (stuck : activity.step environment after later next = none)
    (also : activity.advance environment others data memory state = some (last, finish, final))
    (alsoStuck : activity.step environment last finish final = none) :
    (after, later, next) = (last, finish, final) := by
  induction steps generalizing others data memory state with
  | zero =>
      cases led
      cases others with
      | zero => exact Option.some.inj also
      | succ others =>
          rw [advance, stuck] at also
          cases also
  | succ steps ih =>
      cases others with
      | zero =>
          cases also
          rw [advance, alsoStuck] at led
          cases led
      | succ others =>
          rw [advance] at led also
          split at led
          · rename_i stepped
            rw [stepped] at also
            exact ih led also
          · cases led

end

end Activity

end MiningPool
