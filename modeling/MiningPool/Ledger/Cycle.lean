/-
Module: MiningPool.Ledger.Cycle
Purpose: submitting and auditing at regular intervals.
Main exports: Cycle.Phase, Cycle.start, Cycle.activity
-/
import MiningPool.Ledger.Audit
import MiningPool.Ledger.Rotation

/-!
In every round the current claim is submitted if it has enough shares, and then one claim is audited. The
first round begins one interval after the start; that the interval is not zero is left to the check of the
settings. A round that fails is given up, and the next one comes at its time; only a fatal failure ends the
cycle with an error. Being told to stop ends it without one, and so does a round that reports to have been
cancelled.
-/

namespace MiningPool.Cycle

/-- What the cycle is doing. -/
inductive Phase where
  | waiting (ticker : Ticker)
  | rotating (ticker : Ticker) (rotation : Rotation.Phase)
  | auditing (ticker : Ticker) (audit : Audit.Phase)

/-- A cycle that begins now, with its first tick taken. -/
def start (settings : LedgerSettings) (now : Instant) : Phase :=
  .waiting ((Ticker.start settings.submitInterval now).take now)

def await : Phase → Await pool
  | .waiting ticker => .tick ticker.due
  | .rotating _ rotation => Rotation.await rotation
  | .auditing _ audit => Audit.await audit

/-- The step after a round has failed. -/
def settle (ticker : Ticker) (error : Error) : Phase ⊕ Except Error Unit :=
  if error.kind = .cancelled then .inr (.ok ())
  else if error.fatal then .inr (.error error)
  else .inl (.waiting ticker)

/-- The step after a wait for a tick. -/
def ticked (ticker : Ticker) (now : Instant) : TickOutcome → Phase ⊕ Except Error Unit
  | .cancelled => .inr (.ok ())
  | .due => .inl (.rotating (ticker.take now) (.entering none))

def resume (settings : LedgerSettings) (ledger : Ledger) (now : Instant) :
    (phase : Phase) → (await phase).Reply → Ledger × (Phase ⊕ Except Error Unit)
  | .waiting ticker, outcome => (ledger, ticked ticker now outcome)
  | .rotating ticker rotation, reply =>
    match Rotation.resume settings ledger rotation reply with
    | (ledger, .inl rotation) => (ledger, .inl (.rotating ticker rotation))
    | (ledger, .inr (.error error)) => (ledger, settle ticker error)
    | (ledger, .inr (.ok _)) => (ledger, .inl (.auditing ticker .entering))
  | .auditing ticker audit, reply =>
    match Audit.resume settings ledger now audit reply with
    | (ledger, .inl audit) => (ledger, .inl (.auditing ticker audit))
    | (ledger, .inr (.error error)) => (ledger, settle ticker error)
    | (ledger, .inr (.ok _)) => (ledger, .inl (.waiting ticker))

/-- The cycle on its own. -/
def activity (settings : LedgerSettings) : Activity pool Ledger Phase (Except Error Unit) where
  await := await
  resume ledger now phase reply := resume settings ledger now phase reply

end MiningPool.Cycle
