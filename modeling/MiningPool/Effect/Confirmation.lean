/-
Module: MiningPool.Effect.Confirmation
Purpose: waiting until a transaction is part of the chain.
Main exports: WatchSettings, Confirmation.Phase, Confirmation.activity
-/
import MiningPool.Effect.Collaborators

/-!
The node is asked at the ticks of a clock whose first tick is due at once. A confirmation ends the wait,
and so does a failure that will not pass. A time limit is looked at after every other answer, so that a
confirmation counts however late it comes. The wait can be cancelled between two questions but not
during one.
-/

namespace MiningPool

/-- How a transaction is waited for. -/
structure WatchSettings where
  poll : Duration
  timeout : Option Duration
deriving Repr, DecidableEq

namespace Confirmation

/-- A wait that began at `started`. -/
structure Watch where
  started : Instant
  ticker : Ticker
deriving Repr, DecidableEq

/-- Whether the node is being asked. -/
inductive Phase where
  | waiting (watch : Watch)
  | polling (watch : Watch)
deriving Repr, DecidableEq

/-- The shortest time between two ticks. -/
def leastPoll : Duration := Duration.ofMillis 1

/-- A wait that begins now. -/
def start (settings : WatchSettings) (now : Instant) : Phase :=
  .waiting ⟨now, Ticker.start (max settings.poll leastPoll) now⟩

def await (tx : Hash256) : Phase → Await pool
  | .waiting watch => .tick watch.ticker.due
  | .polling _ => .ask (.isConfirmed tx)

/-- Whether the time limit has been reached. -/
def expired (settings : WatchSettings) (watch : Watch) (now : Instant) : Bool :=
  match settings.timeout with
  | none => false
  | some limit => watch.started + limit ≤ now

/-- The step after an answer that decides nothing. -/
def goOn (settings : WatchSettings) (tx : Hash256) (watch : Watch) (now : Instant) :
    Phase ⊕ Except Error Unit :=
  if expired settings watch now then .inr (.error (.unconfirmed tx)) else .inl (.waiting watch)

/-- The step after a wait for a tick. -/
def ticked (tx : Hash256) (watch : Watch) (now : Instant) : TickOutcome → Phase ⊕ Except Error Unit
  | .cancelled => .inr (.error (.interrupted tx))
  | .due => .inl (.polling { watch with ticker := watch.ticker.take now })

/-- The step after an answer of the node. -/
def answered (settings : WatchSettings) (tx : Hash256) (watch : Watch) (now : Instant) :
    Except Error Bool → Phase ⊕ Except Error Unit
  | .ok true => .inr (.ok ())
  | .ok false => goOn settings tx watch now
  | .error error => if error.retryable then goOn settings tx watch now else .inr (.error error)

def resume (settings : WatchSettings) (tx : Hash256) (now : Instant) :
    (phase : Phase) → (await tx phase).Reply → Phase ⊕ Except Error Unit
  | .waiting watch, outcome => ticked tx watch now outcome
  | .polling watch, outcome => answered settings tx watch now outcome

/-- Waiting on its own. -/
def activity (settings : WatchSettings) (tx : Hash256) :
    Activity pool Unit Phase (Except Error Unit) where
  await := await tx
  resume _ now phase reply := ((), resume settings tx now phase reply)

end Confirmation

end MiningPool
