/-
Module: MiningPool.Proofs.Effect.Polling
Purpose: the first answer that decides about a transaction ends the wait for it, in bounded time.
Main exports: Confirmation.Wait, Confirmation.Wait.Returns, Confirmation.Wait.Decides,
  Confirmation.Wait.le_due, Confirmation.Wait.returns_iff, Confirmation.Wait.Punctual,
  Confirmation.Wait.punctual_of_millis, Confirmation.Wait.first_decision
-/
import Mathlib.Algebra.Order.Floor.Div
import MiningPool.Effect.Confirmation

/-!
A wait that nobody cancels is settled by the timer, by the answers of the node and by the time that each of
them takes. The ticks of the wait may come late, but they never come early: the tick for question `k` is due
no sooner than `k` periods after the start. With a time limit, the question whose tick is due when the limit
has passed is therefore the last one, whatever has been answered before.

How many questions there are exactly depends on the timer even if no answer takes any time. A timer that
looks at its waits once in a millisecond is punctual for periods of whole milliseconds only.
-/

namespace MiningPool.Confirmation

/-- The answer leaves open whether the transaction is confirmed. -/
inductive Undecided : Except Error Bool → Prop where
  | unconfirmed : Undecided (.ok false)
  | retryable (error : Error) (retryable : error.retryable = true) : Undecided (.error error)

/-- A wait for a transaction, with its timer, the node's answers and the time that each of them takes. -/
structure Wait where
  settings : WatchSettings
  timer : Timer
  tx : Hash256
  start : Instant
  outcome : Nat → Except Error Bool
  latency : Nat → Duration

/-- The time, and the number of questions so far. -/
structure Progress where
  now : Instant
  polls : Nat
deriving DecidableEq

namespace Wait

variable (wait : Wait)

/-- The time between two ticks. -/
def period : Duration := max wait.settings.poll leastPoll

/-- Time passes while the node is asked and until the timer ends a wait for a tick, and nobody cancels the
wait for the transaction. -/
def environment : Environment pool Progress where
  now := Progress.now
  ask
    | .isConfirmed _, progress =>
      (wait.outcome progress.polls,
        ⟨progress.now + wait.latency progress.polls, progress.polls + 1⟩)
    | _, progress => (.error (.reported .node ""), progress)
  draw progress := (Draw.zero, progress)
  pause duration progress := { progress with now := progress.now + duration }
  tick due progress := (.due, { progress with now := wait.timer.fires progress.now due })

/-- The wait ends with the result at the time, after so many questions. -/
def Returns (result : Except Error Unit) (finish : Instant) (polls : Nat) : Prop :=
  ∃ steps, (activity wait.settings wait.tx).run wait.environment steps () ⟨wait.start, 0⟩
    (Confirmation.start wait.settings wait.start) = some (result, (), ⟨finish, polls⟩)

/-! ### When the questions are asked -/

/-- The ticks before a question, and when the wait for its tick begins. -/
def schedule : Nat → Ticker × Instant
  | 0 => (Ticker.start wait.period wait.start, wait.start)
  | poll + 1 =>
    let (ticker, idle) := schedule poll
    let began := wait.timer.fires idle ticker.due
    (ticker.take began, began + wait.latency poll)

/-- When the tick of a question is taken. -/
def began (poll : Nat) : Instant :=
  wait.timer.fires (wait.schedule poll).2 (wait.schedule poll).1.due

/-- When a question is answered. -/
def completed (poll : Nat) : Instant := wait.began poll + wait.latency poll

theorem schedule_succ (poll : Nat) :
    wait.schedule (poll + 1) =
      ((wait.schedule poll).1.take (wait.began poll), wait.completed poll) := rfl

theorem due_le_began (poll : Nat) : (wait.schedule poll).1.due ≤ wait.began poll :=
  wait.timer.due_le _ _

theorem period_pos : 0 < wait.period :=
  Nat.lt_of_lt_of_le (by decide : 0 < leastPoll) (Nat.le_max_right _ _)

theorem period_schedule (poll : Nat) : (wait.schedule poll).1.period = wait.period := by
  induction poll with
  | zero => rfl
  | succ poll ih =>
      rw [schedule_succ, Ticker.take]
      split <;> exact ih

/-- No tick is due before its time. -/
theorem le_due (poll : Nat) : wait.start + poll * wait.period ≤ (wait.schedule poll).1.due := by
  induction poll with
  | zero => exact Nat.le_of_eq (congrArg (wait.start + ·) (Nat.zero_mul _))
  | succ poll ih =>
      have late := wait.due_le_began poll
      rw [schedule_succ, Nat.succ_mul, ← Nat.add_assoc, Ticker.take]
      split
      · simp only [period_schedule]
        exact Nat.add_le_add_right ih _
      · simp only [period_schedule]
        exact Nat.add_le_add_right (Nat.le_trans ih late) _

theorem le_completed (poll : Nat) : wait.start + poll * wait.period ≤ wait.completed poll :=
  calc wait.start + poll * wait.period
      ≤ (wait.schedule poll).1.due := wait.le_due poll
    _ ≤ wait.began poll := wait.due_le_began poll
    _ ≤ wait.completed poll := Nat.le_add_right _ _

/-- When the tick of a question is due if none before it has been late. -/
def regular (poll : Nat) : Instant := wait.start + poll * wait.period

theorem regular_succ (poll : Nat) : wait.regular (poll + 1) = wait.regular poll + wait.period := by
  rw [regular, regular, Nat.succ_mul, Nat.add_assoc]

/-- The timer ends the waits for the regular ticks at these times, none of which counts as late. -/
structure Steady (taken : Nat → Instant) : Prop where
  fires : ∀ poll, ∀ began ≤ taken poll, wait.timer.fires began (wait.regular poll) = taken poll
  le_succ : ∀ poll, taken poll ≤ taken (poll + 1)
  inTime : ∀ poll, taken poll ≤ wait.regular poll + Ticker.grace

/-- The timer ends the waits for the regular ticks just when these are due. -/
def Punctual : Prop :=
  ∀ poll, ∀ began ≤ wait.regular poll, wait.timer.fires began (wait.regular poll) = wait.regular poll

section

variable {wait} {taken : Nat → Instant}

theorem Punctual.steady (punctual : wait.Punctual) : wait.Steady wait.regular where
  fires := punctual
  le_succ poll := by
    rw [regular_succ]
    exact Nat.le_add_right _ _
  inTime _ := Nat.le_add_right _ _

/-- In steps of a millisecond no tick is late enough to move the others. -/
theorem steady_of_millis (timed : wait.timer = .millis) :
    wait.Steady fun poll => (wait.regular poll).nextMilli where
  fires poll began early := by
    rw [timed]
    exact Nat.max_eq_right early
  le_succ poll := by
    rw [regular_succ]
    exact Instant.nextMilli_mono (Nat.le_add_right _ _)
  inTime poll := by
    have less : 999999 ≤ Ticker.grace := by decide
    exact Nat.le_trans (Instant.nextMilli_le _) (Nat.add_le_add_left less _)

/-- A timer of whole milliseconds is punctual if the regular ticks are due at whole milliseconds. -/
theorem punctual_of_millis (timed : wait.timer = .millis) {start period : Nat}
    (started : wait.start = Duration.ofMillis start) (spaced : wait.period = Duration.ofMillis period) :
    wait.Punctual := by
  intro poll began early
  have whole : wait.regular poll = Duration.ofMillis (start + poll * period) := by
    rw [regular, started, spaced, Duration.ofMillis, Duration.ofMillis, Duration.ofMillis,
      Nat.add_mul, Nat.mul_assoc]
  have same : (wait.regular poll).nextMilli = wait.regular poll := by
    rw [whole, Instant.nextMilli_ofMillis]
  rw [(steady_of_millis timed).fires poll began (by rwa [same]), same]

theorem Steady.regular_le (steady : wait.Steady taken) (poll : Nat) : wait.regular poll ≤ taken poll := by
  have due := wait.timer.due_le (taken poll) (wait.regular poll)
  rwa [steady.fires poll _ (Nat.le_refl _)] at due

/-- If the answers take no time, the ticks stay the regular ones. -/
theorem Steady.schedule (steady : wait.Steady taken) (prompt : ∀ poll, wait.latency poll = 0)
    (poll : Nat) :
    (wait.schedule poll).1.due = wait.regular poll ∧ (wait.schedule poll).2 ≤ taken poll := by
  induction poll with
  | zero =>
      have now : wait.start = wait.regular 0 := by rw [regular, Nat.zero_mul, Nat.add_zero]
      exact ⟨now, Nat.le_trans (Nat.le_of_eq now) (steady.regular_le 0)⟩
  | succ poll ih =>
      obtain ⟨due, early⟩ := ih
      have onTime : wait.began poll = taken poll := by
        rw [began, due, steady.fires poll _ early]
      rw [schedule_succ, completed, prompt, onTime, Ticker.take, due, if_pos (steady.inTime poll)]
      simp only [period_schedule]
      exact ⟨(wait.regular_succ poll).symm, steady.le_succ poll⟩

theorem Steady.completed_eq (steady : wait.Steady taken) (prompt : ∀ poll, wait.latency poll = 0)
    (poll : Nat) : wait.completed poll = taken poll := by
  obtain ⟨due, early⟩ := steady.schedule prompt poll
  rw [completed, prompt, began, due, steady.fires poll _ early, Nat.add_zero]

end

/-! ### What decides -/

/-- The answer to a question decides about the wait. -/
inductive Decides (poll : Nat) : Except Error Unit → Prop where
  | confirmed (answer : wait.outcome poll = .ok true) : Decides poll (.ok ())
  | failed (error : Error) (answer : wait.outcome poll = .error error)
      (final : error.retryable = false) : Decides poll (.error error)
  | expired (limit : Duration) (answer : Undecided (wait.outcome poll))
      (limited : wait.settings.timeout = some limit)
      (late : wait.start + limit ≤ wait.completed poll) :
      Decides poll (.error (.unconfirmed wait.tx))

/-- The answer to the last question is the first one that decides. -/
def DecidedBy (last : Nat) (result : Except Error Unit) : Prop :=
  wait.Decides last result ∧ ∀ earlier < last, ∀ other, ¬wait.Decides earlier other

/-- The watch before a question. -/
def watch (poll : Nat) : Watch := ⟨wait.start, (wait.schedule poll).1⟩

/-- The step after the answer to a question. -/
def next (poll : Nat) : Phase ⊕ Except Error Unit :=
  answered wait.settings wait.tx (wait.watch (poll + 1)) (wait.completed poll) (wait.outcome poll)

section

variable {wait} {poll last : Nat} {result : Except Error Unit}

theorem next_of_undecided (undecided : Undecided (wait.outcome poll)) :
    wait.next poll =
      goOn wait.settings wait.tx (wait.watch (poll + 1)) (wait.completed poll) := by
  rw [next]
  generalize wait.outcome poll = outcome at undecided
  cases undecided with
  | unconfirmed => rfl
  | retryable error retryable => exact if_pos retryable

theorem Decides.next_eq (decides : wait.Decides poll result) : wait.next poll = .inr result := by
  cases decides with
  | confirmed answer =>
      rw [next, answer]
      rfl
  | failed error answer final =>
      rw [next, answer]
      exact if_neg (by rw [final]; exact Bool.false_ne_true)
  | expired limit undecided limited late =>
      have isExpired : Confirmation.expired wait.settings (wait.watch (poll + 1))
          (wait.completed poll) = true := by
        rw [Confirmation.expired, limited]
        exact decide_eq_true late
      rw [next_of_undecided undecided, goOn, if_pos isExpired]

theorem decides_or_undecided (wait : Wait) (poll : Nat) :
    (∃ result, wait.Decides poll result) ∨ Undecided (wait.outcome poll) := by
  cases answer : wait.outcome poll with
  | ok confirmed =>
      cases confirmed with
      | true => exact .inl ⟨_, .confirmed answer⟩
      | false => exact .inr .unconfirmed
  | error error =>
      cases final : error.retryable with
      | true => exact .inr (.retryable error final)
      | false => exact .inl ⟨_, .failed error answer final⟩

/-- An answer decides, or the wait goes on. -/
theorem next_cases (wait : Wait) (poll : Nat) :
    (∃ result, wait.Decides poll result) ∨
      wait.next poll = .inl (.waiting (wait.watch (poll + 1))) := by
  rcases wait.decides_or_undecided poll with decides | undecided
  · exact .inl decides
  · cases limited : wait.settings.timeout with
    | none =>
        right
        rw [next_of_undecided undecided, goOn, expired, limited]
        rfl
    | some limit =>
        by_cases late : wait.start + limit ≤ wait.completed poll
        · exact .inl ⟨_, .expired limit undecided limited late⟩
        · right
          rw [next_of_undecided undecided, goOn, expired, limited]
          exact if_neg (Bool.not_eq_true _ ▸ decide_eq_false late)

/-! ### Runs -/

variable (wait) in
/-- A run that begins before a question. -/
def runFrom (steps poll : Nat) : Option (Except Error Unit × Unit × Progress) :=
  (activity wait.settings wait.tx).run wait.environment steps () ⟨(wait.schedule poll).2, poll⟩
    (.waiting (wait.watch poll))

theorem step_waiting (poll : Nat) :
    (activity wait.settings wait.tx).step wait.environment () ⟨(wait.schedule poll).2, poll⟩
        (.waiting (wait.watch poll)) =
      some ((), ⟨wait.began poll, poll⟩, .inl (.polling (wait.watch (poll + 1)))) := rfl

theorem step_polling (poll : Nat) :
    (activity wait.settings wait.tx).step wait.environment () ⟨wait.began poll, poll⟩
        (.polling (wait.watch (poll + 1))) =
      some ((), ⟨wait.completed poll, poll + 1⟩, wait.next poll) := rfl

/-- A tick is waited for, and then the node is asked. -/
theorem runFrom_add_two (steps poll : Nat) :
    wait.runFrom (steps + 2) poll =
      match wait.next poll with
      | .inl phase => (activity wait.settings wait.tx).run wait.environment steps ()
          ⟨wait.completed poll, poll + 1⟩ phase
      | .inr result => some (result, (), ⟨wait.completed poll, poll + 1⟩) := by
  rw [runFrom, Activity.run, step_waiting]
  simp only
  rw [Activity.run, step_polling]
  cases wait.next poll <;> rfl

theorem runFrom_of_decides (decides : wait.Decides poll result) (steps : Nat) :
    wait.runFrom (steps + 2) poll = some (result, (), ⟨wait.completed poll, poll + 1⟩) := by
  rw [runFrom_add_two, decides.next_eq]

theorem runFrom_of_undecided (undecided : ∀ other, ¬wait.Decides poll other) (steps : Nat) :
    wait.runFrom (steps + 2) poll = wait.runFrom steps (poll + 1) := by
  rcases wait.next_cases poll with ⟨result, decides⟩ | goesOn
  · exact absurd decides (undecided result)
  · rw [runFrom_add_two, goesOn]
    rfl

/-- What a run leads to is decided by a question of it, and by no earlier one. -/
theorem exists_of_runFrom_eq {steps : Nat} {final : Progress}
    (done : wait.runFrom steps poll = some (result, (), final)) :
    ∃ last, poll ≤ last ∧ wait.Decides last result ∧ final = ⟨wait.completed last, last + 1⟩ ∧
      ∀ earlier, poll ≤ earlier → earlier < last → ∀ other, ¬wait.Decides earlier other := by
  induction steps using Nat.twoStepInduction generalizing poll with
  | zero => cases done
  | one => cases done
  | more steps ih _ =>
      rcases wait.next_cases poll with ⟨other, decides⟩ | goesOn
      · rw [runFrom_of_decides decides] at done
        cases done
        exact ⟨poll, Nat.le_refl _, decides, rfl,
          fun earlier notBefore before => absurd before (Nat.not_lt.2 notBefore)⟩
      · have undecided : ∀ other, ¬wait.Decides poll other := by
          intro other decides
          rw [decides.next_eq] at goesOn
          cases goesOn
        rw [runFrom_of_undecided undecided] at done
        obtain ⟨last, later, decides, same, none⟩ := ih done
        refine ⟨last, Nat.le_of_succ_le later, decides, same, ?_⟩
        intro earlier notBefore before
        rcases Nat.eq_or_lt_of_le notBefore with rfl | after
        · exact undecided
        · exact none earlier after before

/-- Questions that do not decide are followed by the next one. -/
theorem runFrom_of_none {count steps : Nat}
    (none : ∀ earlier, poll ≤ earlier → earlier < poll + count → ∀ other, ¬wait.Decides earlier other) :
    wait.runFrom (2 * count + steps) poll = wait.runFrom steps (poll + count) := by
  induction count generalizing poll with
  | zero => rw [Nat.mul_zero, Nat.zero_add, Nat.add_zero]
  | succ count ih =>
      have first := none poll (Nat.le_refl _) (Nat.lt_add_of_pos_right (Nat.succ_pos _))
      have rest : 2 * (count + 1) + steps = 2 * count + steps + 2 := by
        rw [Nat.mul_add, Nat.mul_one, Nat.add_right_comm]
      rw [rest, runFrom_of_undecided first, ih, Nat.add_right_comm, Nat.add_assoc]
      intro earlier notBefore before
      refine none earlier (Nat.le_of_succ_le notBefore) ?_
      rwa [Nat.add_right_comm, Nat.add_assoc] at before

end

variable (result : Except Error Unit) (finish : Instant) (polls : Nat)

/-- The wait ends with the first question that decides, when it is answered. -/
theorem returns_iff :
    wait.Returns result finish polls ↔
      ∃ last, wait.DecidedBy last result ∧ polls = last + 1 ∧ finish = wait.completed last := by
  constructor
  · rintro ⟨steps, done⟩
    have begun : wait.runFrom steps 0 = some (result, (), ⟨finish, polls⟩) := done
    obtain ⟨last, _, decides, same, none⟩ := exists_of_runFrom_eq begun
    cases same
    exact ⟨last, ⟨decides, fun earlier => none earlier (Nat.zero_le _)⟩, rfl, rfl⟩
  · rintro ⟨last, ⟨decides, none⟩, rfl, rfl⟩
    refine ⟨2 * last + 2, ?_⟩
    have whole : wait.runFrom (2 * last + 2) 0 = wait.runFrom 2 (0 + last) :=
      runFrom_of_none fun earlier _ before => none earlier (by rwa [Nat.zero_add] at before)
    rw [Nat.zero_add, runFrom_of_decides decides] at whole
    exact whole

/-! ### Time limits -/

section

variable {wait} {limit : Duration}

theorem limit_le_completed :
    wait.start + limit ≤ wait.completed (limit ⌈/⌉ wait.period) := by
  have enough : limit ≤ wait.period * (limit ⌈/⌉ wait.period) :=
    (ceilDiv_le_iff_le_mul wait.period_pos).1 (Nat.le_refl _)
  rw [Nat.mul_comm] at enough
  exact Nat.le_trans (Nat.add_le_add_left enough _) (wait.le_completed _)

/-- Some question is the first one that decides. -/
theorem exists_decidedBy {poll : Nat} (decides : ∃ result, wait.Decides poll result) :
    ∃ last result, wait.DecidedBy last result := by
  classical
  have possible : ∃ poll result, wait.Decides poll result := ⟨poll, decides⟩
  obtain ⟨result, first⟩ := Nat.find_spec possible
  exact ⟨Nat.find possible, result, first, fun earlier before other also =>
    Nat.find_min possible before ⟨other, also⟩⟩

variable (limited : wait.settings.timeout = some limit)

include limited

/-- When the limit has passed, every answer decides. -/
theorem exists_decides_of_late {poll : Nat} (late : wait.start + limit ≤ wait.completed poll) :
    ∃ result, wait.Decides poll result := by
  rcases wait.decides_or_undecided poll with decides | undecided
  · exact decides
  · exact ⟨_, .expired limit undecided limited late⟩

theorem le_of_decidedBy {last : Nat} {result : Except Error Unit}
    (decided : wait.DecidedBy last result) : last ≤ limit ⌈/⌉ wait.period := by
  by_contra beyond
  obtain ⟨other, also⟩ := exists_decides_of_late limited limit_le_completed
  exact decided.2 _ (Nat.lt_of_not_le beyond) other also

/-- Without delays and without decisions the first tick that is taken after the limit ends the wait. -/
theorem Steady.decidedBy {taken : Nat → Instant} (steady : wait.Steady taken)
    (prompt : ∀ poll, wait.latency poll = 0) (undecided : ∀ poll, Undecided (wait.outcome poll))
    {last : Nat} (least : IsLeast {poll | wait.start + limit ≤ taken poll} last) :
    wait.DecidedBy last (.error (.unconfirmed wait.tx)) := by
  constructor
  · refine .expired limit (undecided last) limited ?_
    rw [steady.completed_eq prompt]
    exact least.1
  intro earlier before other decides
  have answer := undecided earlier
  cases decides with
  | confirmed confirmed =>
      rw [confirmed] at answer
      cases answer
  | failed error failed final =>
      rw [failed] at answer
      cases answer with
      | retryable _ retryable =>
          rw [final] at retryable
          cases retryable
  | expired other _ same late =>
      rw [limited] at same
      cases same
      rw [steady.completed_eq prompt] at late
      exact Nat.not_le.2 before (least.2 late)

theorem Steady.returns {taken : Nat → Instant} (steady : wait.Steady taken)
    (prompt : ∀ poll, wait.latency poll = 0) (undecided : ∀ poll, Undecided (wait.outcome poll))
    {last : Nat} (least : IsLeast {poll | wait.start + limit ≤ taken poll} last) :
    wait.Returns (.error (.unconfirmed wait.tx)) (taken last) (last + 1) :=
  (wait.returns_iff ..).2
    ⟨last, steady.decidedBy limited prompt undecided least, rfl, (steady.completed_eq prompt last).symm⟩

omit limited in
/-- The limit is reached with the regular tick that has as many periods before it as the limit has, rounded
up. -/
theorem isLeast_regular (wait : Wait) (limit : Duration) :
    IsLeast {poll | wait.start + limit ≤ wait.regular poll} (limit ⌈/⌉ wait.period) := by
  have reached (poll : Nat) :
      wait.start + limit ≤ wait.regular poll ↔ limit ⌈/⌉ wait.period ≤ poll := by
    rw [regular, Nat.add_le_add_iff_left, Nat.mul_comm, ceilDiv_le_iff_le_mul wait.period_pos]
  exact ⟨(reached _).2 (Nat.le_refl _), fun poll => (reached poll).1⟩

end

/-- The wait ends with the first answer that decides and when it is given, and not before. With a time
limit it always ends, whatever the timer, after at most one question more than there are periods in the
limit, rounded up. If the answers take no time and none of them decides, a punctual timer lets it end with
just so many, at the first regular tick at which the limit has been reached, and a timer of whole
milliseconds at the first one that comes to be so when it is put off to the next millisecond. -/
theorem first_decision :
    (∀ result finish polls, wait.Returns result finish polls ↔
      ∃ last, wait.DecidedBy last result ∧ polls = last + 1 ∧ finish = wait.completed last) ∧
    ∀ limit, wait.settings.timeout = some limit →
      (∃ result finish polls, wait.Returns result finish polls) ∧
      (∀ result finish polls, wait.Returns result finish polls →
        polls ≤ limit ⌈/⌉ wait.period + 1) ∧
      ((∀ poll, wait.latency poll = 0) → (∀ poll, Undecided (wait.outcome poll)) →
        (wait.Punctual → wait.Returns (.error (.unconfirmed wait.tx))
          (wait.start + limit ⌈/⌉ wait.period * wait.period) (limit ⌈/⌉ wait.period + 1)) ∧
        (wait.timer = .millis →
          ∀ last, IsLeast {poll | wait.start + limit ≤ (wait.regular poll).nextMilli} last →
            wait.Returns (.error (.unconfirmed wait.tx)) (wait.regular last).nextMilli (last + 1))) := by
  refine ⟨wait.returns_iff, fun limit limited => ⟨?_, ?_, ?_⟩⟩
  · obtain ⟨last, result, decided⟩ :=
      exists_decidedBy (exists_decides_of_late limited limit_le_completed)
    exact ⟨result, _, _, (wait.returns_iff ..).2 ⟨last, decided, rfl, rfl⟩⟩
  · intro result finish polls returns
    obtain ⟨last, decided, rfl, _⟩ := (wait.returns_iff ..).1 returns
    exact Nat.add_le_add_right (le_of_decidedBy limited decided) 1
  · intro prompt undecided
    constructor
    · intro punctual
      exact punctual.steady.returns limited prompt undecided (wait.isLeast_regular limit)
    · intro timed last least
      exact (steady_of_millis timed).returns limited prompt undecided least

/-- Questions every ten milliseconds for at most 25 milliseconds, none of which is ever confirmed. -/
def hopeless : Wait :=
  ⟨⟨Duration.ofMillis 10, some (Duration.ofMillis 25)⟩, .millis, .zero 32, 0, fun _ => .ok false,
    fun _ => 0⟩

/-- The same wait, but the first answer is a confirmation and comes when the limit has long passed. -/
def belated : Wait :=
  { hopeless with outcome := fun _ => .ok true, latency := fun _ => Duration.ofMillis 100 }

/-- The same wait with questions every 1.5 milliseconds for at most 1.9 milliseconds. -/
def uneven : Wait :=
  { hopeless with settings := ⟨1500000, some 1900000⟩ }

/-- Where the period is not whole in milliseconds, the second question comes at two milliseconds and ends
the wait, so that there is one question less than there would be with a punctual timer. -/
theorem first_decision_of_hopeless :
    hopeless.settings.timeout = some (Duration.ofMillis 25) ∧
      hopeless.Returns (.error (.unconfirmed (.zero 32))) (Duration.ofMillis 30) 4 ∧
      belated.Returns (.ok ()) (Duration.ofMillis 100) 1 ∧
      uneven.Returns (.error (.unconfirmed (.zero 32))) (Duration.ofMillis 2) 2 := by
  obtain ⟨_, limits⟩ := hopeless.first_decision
  obtain ⟨_, _, prompt⟩ := limits (Duration.ofMillis 25) rfl
  obtain ⟨onTime, _⟩ := prompt (fun _ => rfl) (fun _ => .unconfirmed)
  have punctual : hopeless.Punctual :=
    punctual_of_millis rfl (show hopeless.start = Duration.ofMillis 0 from rfl)
      (show hopeless.period = Duration.ofMillis 10 from rfl)
  obtain ⟨returns, _⟩ := belated.first_decision
  obtain ⟨_, unevenLimits⟩ := uneven.first_decision
  obtain ⟨_, _, unevenPrompt⟩ := unevenLimits 1900000 rfl
  obtain ⟨_, putOff⟩ := unevenPrompt (fun _ => rfl) (fun _ => .unconfirmed)
  have second : IsLeast {poll | uneven.start + 1900000 ≤ (uneven.regular poll).nextMilli} 1 := by
    refine ⟨by decide, ?_⟩
    rintro (_ | poll) reached
    · exact absurd reached (by decide)
    · exact Nat.le_add_left 1 poll
  refine ⟨rfl, onTime punctual, ?_, putOff rfl 1 second⟩
  exact (returns ..).2 ⟨0, ⟨.confirmed rfl, fun _ before => absurd before (Nat.not_lt_zero _)⟩, rfl, rfl⟩

end Wait

end MiningPool.Confirmation
