/-
Module: MiningPool.Clock.Basic
Purpose: durations, instants and periodic ticks.
Main exports: Duration, Duration.bounded?, Instant, Ticker, Timer, Timer.millis
-/
import MiningPool.Number.Power

/-!
Durations and instants are whole nanoseconds; an instant counts from the start of the clock. The seconds
of a duration take at most 64 bits, and arithmetic that leads beyond has no outcome. Instants are not bounded.

A ticker is due at its start and then once in every period. A tick that is taken late moves the ticks
after it: the next one is due a whole period after the late one was taken, so that a long interruption
is not followed by a burst. Up to five milliseconds do not count as late.

When a tick is due is not yet when it is taken. That is up to the timer, of which nothing is known but that
it ends no wait too early. The usual one looks at its waits once in a millisecond.
-/

namespace MiningPool

/-- A length of time in nanoseconds. -/
abbrev Duration := Nat

/-- A point in time, in nanoseconds since the clock started. -/
abbrev Instant := Nat

/-- A duration of whole milliseconds. -/
def Duration.ofMillis (n : Nat) : Duration := n * 1000000

/-- A duration of whole seconds. -/
def Duration.ofSeconds (n : Nat) : Duration := n * 1000000000

/-- The whole seconds of a duration. -/
def Duration.seconds (d : Duration) : Nat := d / 1000000000

/-- The nanoseconds of a duration beyond its whole seconds. -/
def Duration.subsecond (d : Duration) : Nat := d % 1000000000

/-- The whole milliseconds of a duration. -/
def Duration.millis (d : Duration) : Nat := d / 1000000

/-- The longest duration. -/
def Duration.longest : Duration := ofSeconds (2 ^ (64 : Nat)) - 1

/-- A sum or a multiple of durations, unless it is longer than any duration. -/
def Duration.bounded? (length : Nat) : Option Duration :=
  if length ≤ longest then some length else none

section

variable {length : Nat}

theorem Duration.bounded?_of_le (short : length ≤ longest) : bounded? length = some length :=
  if_pos short

theorem Duration.bounded?_of_not_le (long : ¬length ≤ longest) : bounded? length = none :=
  if_neg long

end

/-- Ticks at regular intervals. -/
structure Ticker where
  period : Duration
  /-- When the next tick is due. -/
  due : Instant
deriving Repr, DecidableEq

namespace Ticker

/-- How late a tick may be taken without moving the ticks after it. -/
def grace : Duration := Duration.ofMillis 5

/-- A ticker whose first tick is due at once. -/
def start (period : Duration) (now : Instant) : Ticker := ⟨period, now⟩

/-- Takes the tick that was due. -/
def take (ticker : Ticker) (now : Instant) : Ticker :=
  if now ≤ ticker.due + grace then { ticker with due := ticker.due + ticker.period }
  else { ticker with due := now + ticker.period }

end Ticker

/-- When waits for an instant end. -/
structure Timer where
  /-- When a wait ends that begins at one instant and is for another one. -/
  fires : (began due : Instant) → Instant
  began_le : ∀ began due, began ≤ fires began due
  /-- No wait ends before the instant that it is for. -/
  due_le : ∀ began due, due ≤ fires began due

/-- The first whole millisecond that is not before an instant. -/
def Instant.nextMilli (instant : Instant) : Instant :=
  Duration.ofMillis (Duration.millis (instant + 999999))

theorem Instant.le_nextMilli (instant : Instant) : instant ≤ instant.nextMilli := by
  have up (n : Nat) : n ≤ (n + 999999) / 1000000 * 1000000 := by omega
  exact up instant

theorem Instant.nextMilli_le (instant : Instant) : instant.nextMilli ≤ instant + 999999 :=
  Nat.div_mul_le_self _ _

theorem Instant.nextMilli_mono {earlier later : Instant} (before : earlier ≤ later) :
    earlier.nextMilli ≤ later.nextMilli :=
  Nat.mul_le_mul_right _ (Nat.div_le_div_right (Nat.add_le_add_right before _))

theorem Instant.nextMilli_ofMillis (n : Nat) :
    Instant.nextMilli (Duration.ofMillis n) = Duration.ofMillis n := by
  have same : (n * 1000000 + 999999) / 1000000 = n := by omega
  exact congrArg Duration.ofMillis same

/-- A timer that looks at its waits at whole milliseconds. -/
def Timer.millis : Timer where
  fires began due := max began due.nextMilli
  began_le _ _ := Nat.le_max_left _ _
  due_le _ due := Nat.le_trans due.le_nextMilli (Nat.le_max_right _ _)

end MiningPool
