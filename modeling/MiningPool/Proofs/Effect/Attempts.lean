/-
Module: MiningPool.Proofs.Effect.Attempts
Purpose: a call is made again until its outcome is settled or the attempts are used up.
Main exports: Retry.Settled, Retry.Script, Retry.Returns, Retry.BreaksOff, Retry.Fits,
  Retry.returns_iff, Retry.breaksOff_iff, Retry.returns_settled
-/
import Mathlib.Order.Bounds.Basic
import Mathlib.Order.Nat
import MiningPool.Effect.Retry

/-!
A script says how every call ends and how the lengths of the waits are drawn. With a script, a call with
further attempts takes one course only: an attempt whose outcome is not settled is followed by a draw, by a
wait, and by the next attempt, and the outcome of the last attempt is the outcome of all.

A delay that is followed by another attempt is doubled. If that leads beyond all durations the calls break
off, and there is no outcome. Policies whose delays take at most half of the longest duration are safe from
that, so in particular all whose delays are given in milliseconds of 64 bits.
-/

namespace MiningPool.Retry

/-- The outcome of an attempt is not a failure that may pass. -/
inductive Settled {α : Type} : Except Error α → Prop where
  | answered (answer : α) : Settled (.ok answer)
  | failed (error : Error) (final : error.retryable = false) : Settled (.error error)

/-- How the calls of a query end, counted from zero, and how the lengths of the waits are drawn. -/
structure Script (I : Interface) where
  answer : (query : I.Query) → Nat → Except Error (I.Answer query)
  draw : Nat → Draw

/-- The calls so far and the waits between them. -/
structure Journal (I : Interface) where
  calls : List I.Query
  waits : List Duration

variable {I : Interface}

/-- The collaborators play their parts, and time passes only in the waits. -/
def Script.environment (script : Script I) : Environment I (Journal I) where
  now journal := journal.waits.foldl (· + ·) 0
  ask query journal :=
    (script.answer query journal.calls.length, { journal with calls := journal.calls ++ [query] })
  draw journal := (script.draw journal.waits.length, journal)
  pause duration journal := { journal with waits := journal.waits ++ [duration] }
  tick _ journal := (.due, journal)

variable (policy : RetryPolicy) (query : I.Query) (script : Script I)

/-- The call ends with the outcome, after the calls and waits of the journal. -/
def Returns (outcome : Except Error (I.Answer query)) (journal : Journal I) : Prop :=
  ∃ steps, (activity I policy query).run script.environment steps () ⟨[], []⟩ (start policy) =
    some (outcome, (), journal)

/-- The calls break off when there have been so many. -/
def BreaksOff (calls : Nat) : Prop :=
  ∃ steps journal, (activity I policy query).advance script.environment steps () ⟨[], []⟩ (start policy) =
    some ((), journal, .overflowed) ∧ journal.calls = List.replicate calls query

/-- The wait after an attempt, not lengthened yet; the first attempt has the number zero. -/
def delay : Nat → Duration
  | 0 => policy.baseDelay
  | attempt + 1 => min (delay attempt * 2) policy.maxDelay

/-- The wait after an attempt. -/
def wait (attempt : Nat) : Duration :=
  delay policy attempt + Draw.jitter (script.draw attempt) (delay policy attempt)

/-- The double of the delay after an attempt is a duration. -/
def Fits (attempt : Nat) : Prop := delay policy attempt * 2 ≤ Duration.longest

/-- What has happened before an attempt. -/
def before (attempt : Nat) : Journal I :=
  ⟨List.replicate attempt query, (List.range attempt).map (wait policy script)⟩

/-- No attempt follows. -/
def Last (attempt : Nat) : Prop :=
  Settled (script.answer query attempt) ∨ policy.maxAttempts ≤ attempt + 1

section

variable {policy query script} {attempt : Nat}

/-- A failure that is not settled may pass. -/
theorem settled_or_retryable {α : Type} (outcome : Except Error α) :
    Settled outcome ∨ ∃ error, outcome = .error error ∧ error.retryable = true := by
  cases outcome with
  | ok answer => exact .inl (.answered answer)
  | error error =>
      cases retryable : error.retryable with
      | true => exact .inr ⟨error, rfl, retryable⟩
      | false => exact .inl (.failed error retryable)

theorem attempted_of_last (last : Last policy query script attempt) :
    attempted policy (attempt + 1) (delay policy attempt) (script.answer query attempt) =
      .inr (script.answer query attempt) := by
  rcases last with settled | exhausted
  · generalize script.answer query attempt = outcome at settled
    cases settled with
    | answered answer => rfl
    | failed error final => simp [attempted, final]
  · generalize script.answer query attempt = outcome
    cases outcome with
    | ok answer => rfl
    | error error => simp [attempted, Nat.not_lt.2 exhausted]

theorem attempted_of_not_last (further : ¬Last policy query script attempt) :
    attempted policy (attempt + 1) (delay policy attempt) (script.answer query attempt) =
      .inl (.drawing (attempt + 1) (delay policy attempt)) := by
  obtain ⟨unsettled, left⟩ := not_or.1 further
  rcases settled_or_retryable (script.answer query attempt) with settled | ⟨error, failed, retryable⟩
  · exact absurd settled unsettled
  · rw [failed]
    simp [attempted, retryable, Nat.lt_of_not_le left]

/-! ### Delays -/

/-- Half of the longest duration leaves room for what is drawn. -/
theorem Fits.wait_le (fits : Fits policy attempt) : wait policy script attempt ≤ Duration.longest := by
  have room (delay jitter : Nat) (halved : delay * 2 ≤ 2 ^ (64 : Nat) * 1000000000 - 1)
      (small : jitter ≤ (2 ^ (64 : Nat) - 1) * 1000000) :
      delay + jitter ≤ 2 ^ (64 : Nat) * 1000000000 - 1 := by omega
  exact room _ _ fits ((script.draw attempt).jitter_le _)

/-- Delays that can be doubled at first can be doubled ever after. -/
theorem fits_of_le (base : policy.baseDelay * 2 ≤ Duration.longest)
    (greatest : policy.maxDelay * 2 ≤ Duration.longest) (attempt : Nat) : Fits policy attempt := by
  cases attempt with
  | zero => exact base
  | succ attempt => exact Nat.le_trans (Nat.mul_le_mul_right 2 (Nat.min_le_right _ _)) greatest

theorem rested_of_fits (fits : Fits policy attempt) :
    rested policy (attempt + 1) (delay policy attempt) =
      .calling (attempt + 2) (delay policy (attempt + 1)) := by
  rw [rested, Duration.bounded?_of_le fits]
  rfl

theorem rested_of_not_fits (long : ¬Fits policy attempt) :
    rested policy (attempt + 1) (delay policy attempt) = .overflowed := by
  rw [rested, Duration.bounded?_of_not_le long]

theorem drawn_of_le (short : wait policy script attempt ≤ Duration.longest) :
    drawn (attempt + 1) (delay policy attempt) (script.draw attempt) =
      .resting (attempt + 1) (delay policy attempt) (wait policy script attempt) := by
  rw [drawn, ← wait, Duration.bounded?_of_le short]

theorem drawn_of_not_le (long : ¬wait policy script attempt ≤ Duration.longest) :
    drawn (attempt + 1) (delay policy attempt) (script.draw attempt) = .overflowed := by
  rw [drawn, ← wait, Duration.bounded?_of_not_le long]

/-! ### Runs -/

variable (policy query script) in
/-- What has happened before the wait after an attempt. -/
def called (attempt : Nat) : Journal I :=
  { before policy query script attempt with calls := List.replicate (attempt + 1) query }

theorem step_calling (attempt : Nat) :
    (activity I policy query).step script.environment () (before policy query script attempt)
        (.calling (attempt + 1) (delay policy attempt)) =
      some ((), called policy query script attempt,
        attempted policy (attempt + 1) (delay policy attempt) (script.answer query attempt)) := by
  have answer : script.environment.ask query (before policy query script attempt) =
      (script.answer query attempt, called policy query script attempt) := by
    simp only [Script.environment, before, called, List.length_replicate, List.replicate_succ']
  simp only [Activity.step, activity, await, Environment.reply?, answer]
  rfl

theorem step_drawing (attempt : Nat) :
    (activity I policy query).step script.environment () (called policy query script attempt)
        (.drawing (attempt + 1) (delay policy attempt)) =
      some ((), called policy query script attempt,
        .inl (drawn (attempt + 1) (delay policy attempt) (script.draw attempt))) := by
  have draw : script.environment.draw (called policy query script attempt) =
      (script.draw attempt, called policy query script attempt) := by
    simp only [Script.environment, before, called, List.length_map, List.length_range]
  simp only [Activity.step, activity, await, Environment.reply?, draw]
  rfl

theorem step_resting (attempt : Nat) :
    (activity I policy query).step script.environment () (called policy query script attempt)
        (.resting (attempt + 1) (delay policy attempt) (wait policy script attempt)) =
      some ((), before policy query script (attempt + 1),
        .inl (rested policy (attempt + 1) (delay policy attempt))) := by
  have rested : script.environment.pause (wait policy script attempt)
      (called policy query script attempt) = before policy query script (attempt + 1) := by
    simp only [Script.environment, before, called, List.range_succ, List.map_append, List.map_cons,
      List.map_nil]
  simp only [Activity.step, activity, await, Environment.reply?, rested]
  rfl

/-- The last attempt gives the outcome. -/
theorem run_of_last (last : Last policy query script attempt) (steps : Nat) :
    (activity I policy query).run script.environment (steps + 1) ()
        (before policy query script attempt) (.calling (attempt + 1) (delay policy attempt)) =
      some (script.answer query attempt, (), called policy query script attempt) := by
  rw [Activity.run, step_calling, attempted_of_last last]

/-- An attempt that is not the last one is followed by a draw, a wait, and the next attempt. -/
theorem advance_of_fits (further : ¬Last policy query script attempt) (fits : Fits policy attempt) :
    (activity I policy query).advance script.environment 3 () (before policy query script attempt)
        (.calling (attempt + 1) (delay policy attempt)) =
      some ((), before policy query script (attempt + 1),
        .calling (attempt + 2) (delay policy (attempt + 1))) := by
  rw [Activity.advance, step_calling, attempted_of_not_last further]
  simp only
  rw [Activity.advance, step_drawing, drawn_of_le fits.wait_le]
  simp only
  rw [Activity.advance, step_resting, rested_of_fits fits]
  rfl

/-- If the delay cannot be doubled, it may be that the wait cannot be made either. -/
theorem exists_advance_of_not_fits (further : ¬Last policy query script attempt)
    (long : ¬Fits policy attempt) :
    ∃ steps journal, (activity I policy query).advance script.environment steps ()
        (before policy query script attempt) (.calling (attempt + 1) (delay policy attempt)) =
      some ((), journal, .overflowed) ∧ journal.calls = List.replicate (attempt + 1) query := by
  by_cases short : wait policy script attempt ≤ Duration.longest
  · refine ⟨3, before policy query script (attempt + 1), ?_, rfl⟩
    rw [Activity.advance, step_calling, attempted_of_not_last further]
    simp only
    rw [Activity.advance, step_drawing, drawn_of_le short]
    simp only
    rw [Activity.advance, step_resting, rested_of_not_fits long]
    rfl
  · refine ⟨2, called policy query script attempt, ?_, rfl⟩
    rw [Activity.advance, step_calling, attempted_of_not_last further]
    simp only
    rw [Activity.advance, step_drawing, drawn_of_not_le short]
    rfl

/-- An attempt is made if none before it was the last one and no delay was too long. -/
theorem advance_of_earlier (none : ∀ earlier < attempt, ¬Last policy query script earlier)
    (fits : ∀ earlier < attempt, Fits policy earlier) :
    (activity I policy query).advance script.environment (3 * attempt) () ⟨[], []⟩ (start policy) =
      some ((), before policy query script attempt, .calling (attempt + 1) (delay policy attempt)) := by
  induction attempt with
  | zero => rfl
  | succ attempt ih =>
      have soFar := ih (fun earlier before => none earlier (Nat.lt_succ_of_lt before))
        fun earlier before => fits earlier (Nat.lt_succ_of_lt before)
      rw [Nat.mul_succ, Activity.advance_add soFar]
      exact advance_of_fits (none attempt (Nat.lt_succ_self attempt))
        (fits attempt (Nat.lt_succ_self attempt))

section

variable (first : IsLeast {attempt | Last policy query script attempt} attempt)

include first

theorem exists_run_eq (fits : ∀ earlier < attempt, Fits policy earlier) :
    ∃ steps, (activity I policy query).run script.environment steps () ⟨[], []⟩ (start policy) =
      some (script.answer query attempt, (), called policy query script attempt) := by
  have none : ∀ earlier < attempt, ¬Last policy query script earlier :=
    fun earlier before last => Nat.not_le_of_lt before (first.2 last)
  refine ⟨3 * attempt + 1, ?_⟩
  rw [Activity.run_of_advance (advance_of_earlier none fits)]
  exact run_of_last first.1 0

theorem breaksOff_of_not_fits {broken : Nat} (least : IsLeast {attempt | ¬Fits policy attempt} broken)
    (before : broken < attempt) : BreaksOff policy query script (broken + 1) := by
  have none : ∀ earlier < attempt, ¬Last policy query script earlier :=
    fun earlier before last => Nat.not_le_of_lt before (first.2 last)
  have fits : ∀ earlier < broken, Fits policy earlier :=
    fun earlier before => not_not.1 fun long => Nat.not_le_of_lt before (least.2 long)
  obtain ⟨steps, journal, overflowed, calls⟩ :=
    exists_advance_of_not_fits (none broken before) least.1
  refine ⟨3 * broken + steps, journal, ?_, calls⟩
  rw [Activity.advance_add
    (advance_of_earlier (fun earlier sooner => none earlier (Nat.lt_trans sooner before)) fits)]
  exact overflowed

omit first in
/-- All delays before an attempt can be doubled, or there is a first one that cannot. -/
theorem fits_or_exists_isLeast (policy : RetryPolicy) (attempt : Nat) :
    (∀ earlier < attempt, Fits policy earlier) ∨
      ∃ broken < attempt, IsLeast {attempt | ¬Fits policy attempt} broken := by
  classical
  by_cases fits : ∀ earlier < attempt, Fits policy earlier
  · exact .inl fits
  · obtain ⟨earlier, before, long⟩ : ∃ earlier < attempt, ¬Fits policy earlier := by
      simpa only [not_forall, exists_prop] using fits
    have possible : ∃ attempt, ¬Fits policy attempt := ⟨earlier, long⟩
    exact .inr ⟨Nat.find possible, Nat.lt_of_le_of_lt (Nat.find_min' possible long) before,
      Nat.isLeast_find possible⟩

omit first in
theorem not_returns_of_breaksOff {calls : Nat} {outcome : Except Error (I.Answer query)}
    {journal : Journal I} (breaksOff : BreaksOff policy query script calls) :
    ¬Returns policy query script outcome journal := by
  rintro ⟨steps, done⟩
  obtain ⟨_, _, overflowed, _⟩ := breaksOff
  exact Activity.run_of_stuck overflowed rfl done

omit first in
theorem BreaksOff.unique {calls others : Nat} (breaksOff : BreaksOff policy query script calls)
    (also : BreaksOff policy query script others) : calls = others := by
  obtain ⟨_, _, overflowed, called⟩ := breaksOff
  obtain ⟨_, _, alsoOverflowed, alsoCalled⟩ := also
  cases Activity.advance_unique overflowed rfl alsoOverflowed rfl
  rw [called] at alsoCalled
  exact (List.replicate_inj.1 alsoCalled).1

/-- The outcome is that of the first attempt that none follows, unless a delay before it is too long. -/
theorem returns_iff (outcome : Except Error (I.Answer query)) (journal : Journal I) :
    Returns policy query script outcome journal ↔ (∀ earlier < attempt, Fits policy earlier) ∧
      outcome = script.answer query attempt ∧ journal = called policy query script attempt := by
  constructor
  · intro returns
    rcases fits_or_exists_isLeast policy attempt with fits | ⟨broken, before, least⟩
    · obtain ⟨_, whole⟩ := exists_run_eq first fits
      obtain ⟨_, done⟩ := returns
      cases Activity.run_unique done whole
      exact ⟨fits, rfl, rfl⟩
    · exact absurd returns (not_returns_of_breaksOff (breaksOff_of_not_fits first least before))
  · rintro ⟨fits, rfl, rfl⟩
    exact exists_run_eq first fits

end

/-- The number of attempts is reached, if not before. -/
theorem exists_isLeast (attempts : Nat) (query : I.Query) (script : Script I) :
    ∃ last, IsLeast
      {attempt | Settled (script.answer query attempt) ∨ attempt + 1 = max attempts 1} last := by
  classical
  have possible : ∃ attempt, Settled (script.answer query attempt) ∨ attempt + 1 = max attempts 1 :=
    ⟨max attempts 1 - 1, .inr (Nat.sub_add_cancel (Nat.le_max_right _ _))⟩
  exact ⟨Nat.find possible, Nat.isLeast_find possible⟩

/-- The first attempt that none follows is settled or reaches the number exactly. -/
theorem isLeast_last {attempts last : Nat} {baseDelay maxDelay : Duration}
    (least : IsLeast
      {attempt | Settled (script.answer query attempt) ∨ attempt + 1 = max attempts 1} last) :
    IsLeast {attempt | Last (.create attempts baseDelay maxDelay) query script attempt} last := by
  refine ⟨least.1.imp_right fun reached => Nat.le_of_eq reached.symm, ?_⟩
  rintro attempt (settled | exhausted)
  · exact least.2 (.inl settled)
  · have reached : last + 1 ≤ max attempts 1 := by
      have bound := least.2 (.inr (Nat.sub_add_cancel (Nat.le_max_right attempts 1)))
      exact Nat.add_le_of_le_sub (Nat.le_max_right attempts 1) bound
    exact Nat.le_of_succ_le_succ (Nat.le_trans reached exhausted)

end

/-- An operation that gives a number. -/
def operation : Interface := ⟨Unit, fun _ => Nat⟩

end MiningPool.Retry
