/-
Module: MiningPool.Effect.Retry
Purpose: calls that are tried again after a failure that may pass.
Main exports: RetryPolicy, Retry.Phase, Retry.activity
-/
import MiningPool.Effect.Activity

/-!
A call that fails in a way that may pass is made again, up to a number of attempts and with a growing
wait in between. The first wait is the base delay, each further one twice the one before but at most the
greatest delay, and each is lengthened at random by less than a tenth. Any other outcome ends the calls.

A wait that would be longer than any duration is not made, and neither is a call behind a wait whose double
would be: the calls break off.
-/

namespace MiningPool

/-- How often and after which waits a call is made. -/
structure RetryPolicy where
  maxAttempts : Nat
  baseDelay : Duration
  maxDelay : Duration
deriving Repr, DecidableEq

namespace RetryPolicy

/-- A policy with at least one attempt. -/
def create (attempts : Nat) (baseDelay maxDelay : Duration) : RetryPolicy :=
  ⟨max attempts 1, baseDelay, maxDelay⟩

/-- A single attempt. -/
def once : RetryPolicy := create 1 0 0

end RetryPolicy

namespace Retry

/-- How far a call with further attempts has come. -/
inductive Phase where
  /-- Attempt number `attempt` is being made; a wait after it takes `delay`. -/
  | calling (attempt : Nat) (delay : Duration)
  /-- The length of the wait is being drawn. -/
  | drawing (attempt : Nat) (delay : Duration)
  /-- Waiting for the next attempt. -/
  | resting (attempt : Nat) (delay wait : Duration)
  /-- Broken off, because a duration came out too long. -/
  | overflowed
deriving Repr, DecidableEq

/-- The first attempt. -/
def start (policy : RetryPolicy) : Phase := .calling 1 policy.baseDelay

/-- What a call waits for. -/
def await {I : Interface} (query : I.Query) : Phase → Await I
  | .calling _ _ => .ask query
  | .drawing _ _ => .draw
  | .resting _ _ wait => .pause wait
  | .overflowed => .never

/-- The step after an attempt. -/
def attempted {α : Type} (policy : RetryPolicy) (attempt : Nat) (delay : Duration) :
    Except Error α → Phase ⊕ Except Error α
  | .ok answer => .inr (.ok answer)
  | .error error =>
    if error.retryable && attempt < policy.maxAttempts then .inl (.drawing attempt delay)
    else .inr (.error error)

/-- The step after the length of a wait has been drawn. -/
def drawn (attempt : Nat) (delay : Duration) (draw : Draw) : Phase :=
  match Duration.bounded? (delay + Draw.jitter draw delay) with
  | some wait => .resting attempt delay wait
  | none => .overflowed

/-- The step after a wait. -/
def rested (policy : RetryPolicy) (attempt : Nat) (delay : Duration) : Phase :=
  match Duration.bounded? (delay * 2) with
  | some doubled => .calling (attempt + 1) (min doubled policy.maxDelay)
  | none => .overflowed

/-- The step after an attempt, a draw or a wait. -/
def resume {I : Interface} (policy : RetryPolicy) (query : I.Query) :
    (phase : Phase) → (await query phase).Reply → Phase ⊕ Except Error (I.Answer query)
  | .calling attempt delay, outcome => attempted policy attempt delay outcome
  | .drawing attempt delay, draw => .inl (drawn attempt delay draw)
  | .resting attempt delay _, _ => .inl (rested policy attempt delay)

/-- A call with further attempts on its own. -/
def activity (I : Interface) (policy : RetryPolicy) (query : I.Query) :
    Activity I Unit Phase (Except Error (I.Answer query)) where
  await := await query
  resume _ _ phase reply := ((), resume policy query phase reply)

end Retry

end MiningPool
