/-
Module: MiningPool.Proofs.Effect.Cancellation
Purpose: the order to stop ends a wait for a transaction as soon as it can be noticed.
Main exports: Confirmation.StopOrder, Confirmation.Wait.Ends, Confirmation.Wait.ends_iff,
  Confirmation.Wait.heeds_order
-/
import MiningPool.Proofs.Effect.Polling

/-!
The order to stop is noticed between two questions and not while the node is being asked. Whether it comes
before a tick that can be taken at the same moment is left open, and so is the timer. Up to the place where
the order takes effect, a wait asks its questions when it would ask them without the order, so the schedule
of the undisturbed wait tells where the order falls: into a question, into the wait for a tick, or behind
the end.
-/

namespace MiningPool.Confirmation

/-- An order to stop. -/
structure StopOrder where
  time : Instant
  /-- Whether it comes before the tick of a question, if that can be taken at the very same moment. -/
  first : Nat → Bool

/-- The order comes before the tick of a question that can be taken at a time. -/
def StopOrder.Precedes (order : StopOrder) (poll : Nat) (taken : Instant) : Prop :=
  order.time < taken ∨ (order.time = taken ∧ order.first poll = true)

instance (order : StopOrder) (poll : Nat) (taken : Instant) : Decidable (order.Precedes poll taken) :=
  inferInstanceAs (Decidable (_ ∨ _))

theorem StopOrder.le_time {order : StopOrder} {poll : Nat} {taken : Instant}
    (later : ¬order.Precedes poll taken) : taken ≤ order.time :=
  Nat.le_of_not_lt fun before => later (.inl before)

/-- What comes before a tick comes before all that are taken later. -/
theorem StopOrder.Precedes.of_le {order : StopOrder} {poll : Nat} {taken later : Instant}
    (before : order.Precedes poll taken) (notEarlier : taken ≤ later) : order.Precedes poll later := by
  rcases before with earlier | ⟨rfl, first⟩
  · exact .inl (Nat.lt_of_lt_of_le earlier notEarlier)
  · exact (Nat.lt_or_eq_of_le notEarlier).imp id fun same => ⟨same, first⟩

/-- The time, and when each question so far has been asked. -/
structure Journal where
  now : Instant
  asked : List Instant
deriving DecidableEq

namespace Wait

variable (wait : Wait) (order : StopOrder)

/-- Time passes as in an undisturbed wait, but a wait for a tick is cut short by the order to stop. -/
def stoppable : Environment pool Journal where
  now := Journal.now
  ask
    | .isConfirmed _, journal =>
      (wait.outcome journal.asked.length,
        ⟨journal.now + wait.latency journal.asked.length, journal.asked ++ [journal.now]⟩)
    | _, journal => (.error (.reported .node ""), journal)
  draw journal := (Draw.zero, journal)
  pause duration journal := { journal with now := journal.now + duration }
  tick due journal :=
    let taken := wait.timer.fires journal.now due
    if order.Precedes journal.asked.length taken then
      (.cancelled, { journal with now := max journal.now order.time })
    else (.due, { journal with now := taken })

/-- Under the order, the wait ends with the result at the time, after questions at these times. -/
def Ends (result : Except Error Unit) (finish : Instant) (asked : List Instant) : Prop :=
  ∃ steps, (activity wait.settings wait.tx).run (wait.stoppable order) steps () ⟨wait.start, []⟩
    (Confirmation.start wait.settings wait.start) = some (result, (), ⟨finish, asked⟩)

/-! ### Where the order falls -/

/-- When the wait for the tick of a question begins. -/
def idle (poll : Nat) : Instant := (wait.schedule poll).2

/-- When the questions before this one are asked. -/
def questions (poll : Nat) : List Instant := (List.range poll).map wait.began

/-- The order comes before the tick of a question is taken. -/
def Forestalls (poll : Nat) : Prop := order.Precedes poll (wait.began poll)

instance (poll : Nat) : Decidable (wait.Forestalls order poll) :=
  inferInstanceAs (Decidable (order.Precedes poll (wait.began poll)))

/-- A question is asked in spite of the order, and its answer does not decide. -/
def GoesOn (poll : Nat) : Prop :=
  ¬wait.Forestalls order poll ∧ ∀ result, ¬wait.Decides poll result

/-- The wait comes to wait for the tick of a question. -/
def Reaches (poll : Nat) : Prop := ∀ earlier < poll, wait.GoesOn order earlier

/-- The order is given while the tick of a question is waited for. -/
structure FallsBefore (poll : Nat) : Prop where
  reached : wait.Reaches order poll
  idle : wait.idle poll ≤ order.time
  noticed : wait.Forestalls order poll

/-- The order is given while a question is being answered. -/
structure FallsInto (poll : Nat) : Prop where
  reached : wait.Reaches order poll
  unnoticed : ¬wait.Forestalls order poll
  unanswered : order.time < wait.completed poll

/-- How the wait ends when it comes to a question: result, time, and number of questions. -/
inductive EndsAt (poll : Nat) : Except Error Unit → Instant → Nat → Prop where
  | interrupted (noticed : wait.Forestalls order poll) :
      EndsAt poll (.error (.interrupted wait.tx)) (max (wait.idle poll) order.time) poll
  | decided {result : Except Error Unit} (unnoticed : ¬wait.Forestalls order poll)
      (decides : wait.Decides poll result) : EndsAt poll result (wait.completed poll) (poll + 1)

section

variable {wait order} {poll count : Nat} {result : Except Error Unit} {finish : Instant}

theorem length_questions (poll : Nat) : (wait.questions poll).length = poll := by
  rw [questions, List.length_map, List.length_range]

theorem questions_succ (poll : Nat) :
    wait.questions (poll + 1) = wait.questions poll ++ [wait.began poll] := by
  rw [questions, List.range_succ, List.map_append]
  rfl

theorem idle_le_began (poll : Nat) : wait.idle poll ≤ wait.began poll := wait.timer.began_le _ _

theorem Reaches.succ (reached : wait.Reaches order poll) (goesOn : wait.GoesOn order poll) :
    wait.Reaches order (poll + 1) := by
  intro earlier before
  rcases Nat.eq_or_lt_of_le (Nat.le_of_lt_succ before) with rfl | before
  · exact goesOn
  · exact reached earlier before

/-- A question that is left open within the time limit decides nothing. -/
theorem not_decides (undecided : Undecided (wait.outcome poll))
    (early : ∀ limit ∈ wait.settings.timeout, wait.completed poll < wait.start + limit)
    (result : Except Error Unit) : ¬wait.Decides poll result := by
  intro decides
  cases decides with
  | confirmed answer =>
      rw [answer] at undecided
      cases undecided
  | failed error answer final =>
      rw [answer] at undecided
      cases undecided with
      | retryable _ retryable =>
          rw [final] at retryable
          cases retryable
  | expired limit _ limited late => exact Nat.not_le_of_lt (early limit limited) late

theorem endsAt_or_goesOn (wait : Wait) (order : StopOrder) (poll : Nat) :
    (∃ result finish count, wait.EndsAt order poll result finish count) ∨
      wait.GoesOn order poll := by
  by_cases noticed : wait.Forestalls order poll
  · exact .inl ⟨_, _, _, .interrupted noticed⟩
  · by_cases decides : ∃ result, wait.Decides poll result
    · obtain ⟨result, decides⟩ := decides
      exact .inl ⟨_, _, _, .decided noticed decides⟩
    · exact .inr ⟨noticed, fun result decision => decides ⟨result, decision⟩⟩

/-- No question is asked after the order. -/
theorem EndsAt.le_time (reached : wait.Reaches order poll)
    (ends : wait.EndsAt order poll result finish count) :
    ∀ instant ∈ wait.questions count, instant ≤ order.time := by
  have before : ∀ earlier < poll, wait.began earlier ≤ order.time :=
    fun earlier inside => (reached earlier inside).1 |> StopOrder.le_time
  intro instant member
  obtain ⟨earlier, inside, rfl⟩ := List.mem_map.1 member
  rw [List.mem_range] at inside
  cases ends with
  | interrupted noticed => exact before earlier inside
  | decided unnoticed decides =>
      rcases Nat.eq_or_lt_of_le (Nat.le_of_lt_succ inside) with rfl | inside
      · exact StopOrder.le_time unnoticed
      · exact before earlier inside

/-- Ticks are due ever later, so that the order precedes one of them. -/
theorem exists_forestalls (wait : Wait) (order : StopOrder) : ∃ poll, wait.Forestalls order poll := by
  refine ⟨order.time + 1, .inl ?_⟩
  calc order.time
      < order.time + 1 := Nat.lt_succ_self _
    _ ≤ (order.time + 1) * wait.period := Nat.le_mul_of_pos_right _ wait.period_pos
    _ ≤ wait.start + (order.time + 1) * wait.period := Nat.le_add_left _ _
    _ ≤ (wait.schedule (order.time + 1)).1.due := wait.le_due _
    _ ≤ wait.began (order.time + 1) := wait.due_le_began _

/-- The wait comes to an end at some question. -/
theorem exists_endsAt (wait : Wait) (order : StopOrder) :
    ∃ poll result finish count, wait.Reaches order poll ∧
      wait.EndsAt order poll result finish count := by
  classical
  have possible : ∃ poll, ¬wait.GoesOn order poll := by
    obtain ⟨poll, noticed⟩ := exists_forestalls wait order
    exact ⟨poll, fun goesOn => goesOn.1 noticed⟩
  have reached : wait.Reaches order (Nat.find possible) :=
    fun earlier before => not_not.1 (Nat.find_min possible before)
  rcases wait.endsAt_or_goesOn order (Nat.find possible) with ⟨result, finish, count, ends⟩ | goesOn
  · exact ⟨_, result, finish, count, reached, ends⟩
  · exact absurd goesOn (Nat.find_spec possible)

/-! ### Runs -/

variable (wait order) in
/-- A run that begins before a question. -/
def stoppableFrom (steps poll : Nat) : Option (Except Error Unit × Unit × Journal) :=
  (activity wait.settings wait.tx).run (wait.stoppable order) steps ()
    ⟨wait.idle poll, wait.questions poll⟩ (.waiting (wait.watch poll))

/-- A wait for a tick, in the surroundings of its question. -/
theorem step_ticked (wait : Wait) (order : StopOrder) (poll : Nat) :
    (activity wait.settings wait.tx).step (wait.stoppable order) ()
        ⟨wait.idle poll, wait.questions poll⟩ (.waiting (wait.watch poll)) =
      let (outcome, journal) := (wait.stoppable order).tick (wait.schedule poll).1.due
        ⟨wait.idle poll, wait.questions poll⟩
      some ((), journal, ticked wait.tx (wait.watch poll) journal.now outcome) := rfl

theorem step_noticed (noticed : wait.Forestalls order poll) :
    (activity wait.settings wait.tx).step (wait.stoppable order) ()
        ⟨wait.idle poll, wait.questions poll⟩ (.waiting (wait.watch poll)) =
      some ((), ⟨max (wait.idle poll) order.time, wait.questions poll⟩,
        .inr (.error (.interrupted wait.tx))) := by
  have cancelled : (wait.stoppable order).tick (wait.schedule poll).1.due
      ⟨wait.idle poll, wait.questions poll⟩ =
        (.cancelled, ⟨max (wait.idle poll) order.time, wait.questions poll⟩) := by
    simp only [stoppable, length_questions]
    exact if_pos noticed
  rw [step_ticked, cancelled]
  rfl

theorem step_unnoticed (unnoticed : ¬wait.Forestalls order poll) :
    (activity wait.settings wait.tx).step (wait.stoppable order) ()
        ⟨wait.idle poll, wait.questions poll⟩ (.waiting (wait.watch poll)) =
      some ((), ⟨wait.began poll, wait.questions poll⟩,
        .inl (.polling (wait.watch (poll + 1)))) := by
  have due : (wait.stoppable order).tick (wait.schedule poll).1.due
      ⟨wait.idle poll, wait.questions poll⟩ = (.due, ⟨wait.began poll, wait.questions poll⟩) := by
    simp only [stoppable, length_questions]
    exact if_neg unnoticed
  rw [step_ticked, due]
  rfl

/-- The node is asked. -/
theorem step_asked (wait : Wait) (order : StopOrder) (poll : Nat) :
    (activity wait.settings wait.tx).step (wait.stoppable order) ()
        ⟨wait.began poll, wait.questions poll⟩ (.polling (wait.watch (poll + 1))) =
      some ((), ⟨wait.completed poll, wait.questions (poll + 1)⟩, wait.next poll) := by
  have answer : (wait.stoppable order).ask (.isConfirmed wait.tx)
      ⟨wait.began poll, wait.questions poll⟩ =
        (wait.outcome poll, ⟨wait.completed poll, wait.questions (poll + 1)⟩) := by
    simp only [stoppable, length_questions, questions_succ]
    rfl
  rw [Activity.step]
  simp only [activity, await, Environment.reply?, answer]
  rfl

theorem stoppableFrom_of_noticed (noticed : wait.Forestalls order poll) (steps : Nat) :
    wait.stoppableFrom order (steps + 1) poll =
      some (.error (.interrupted wait.tx), (),
        ⟨max (wait.idle poll) order.time, wait.questions poll⟩) := by
  rw [stoppableFrom, Activity.run, step_noticed noticed]

/-- A tick is waited for, and then the node is asked. -/
theorem stoppableFrom_of_unnoticed (unnoticed : ¬wait.Forestalls order poll) (steps : Nat) :
    wait.stoppableFrom order (steps + 2) poll =
      match wait.next poll with
      | .inl phase => (activity wait.settings wait.tx).run (wait.stoppable order) steps ()
          ⟨wait.completed poll, wait.questions (poll + 1)⟩ phase
      | .inr result => some (result, (), ⟨wait.completed poll, wait.questions (poll + 1)⟩) := by
  rw [stoppableFrom, Activity.run, step_unnoticed unnoticed]
  simp only
  rw [Activity.run, step_asked]
  cases wait.next poll <;> rfl

theorem stoppableFrom_of_decides (unnoticed : ¬wait.Forestalls order poll)
    (decides : wait.Decides poll result) (steps : Nat) :
    wait.stoppableFrom order (steps + 2) poll =
      some (result, (), ⟨wait.completed poll, wait.questions (poll + 1)⟩) := by
  rw [stoppableFrom_of_unnoticed unnoticed, decides.next_eq]

theorem stoppableFrom_of_goesOn (goesOn : wait.GoesOn order poll) (steps : Nat) :
    wait.stoppableFrom order (steps + 2) poll = wait.stoppableFrom order steps (poll + 1) := by
  rcases wait.next_cases poll with ⟨result, decides⟩ | isNext
  · exact absurd decides (goesOn.2 result)
  · rw [stoppableFrom_of_unnoticed goesOn.1, isNext]
    rfl

/-- Where a wait ends, a run ends, and with the same result. -/
theorem EndsAt.stoppableFrom_eq (ends : wait.EndsAt order poll result finish count) (steps : Nat) :
    wait.stoppableFrom order (steps + 2) poll =
      some (result, (), ⟨finish, wait.questions count⟩) := by
  cases ends with
  | interrupted noticed => exact stoppableFrom_of_noticed noticed (steps + 1)
  | decided unnoticed decides => exact stoppableFrom_of_decides unnoticed decides steps

/-- Questions at which the wait goes on are followed by the next one. -/
theorem stoppableFrom_of_reaches (reached : wait.Reaches order poll) (steps : Nat) :
    wait.stoppableFrom order (2 * poll + steps) 0 = wait.stoppableFrom order steps poll := by
  induction poll generalizing steps with
  | zero => rw [Nat.mul_zero, Nat.zero_add]
  | succ poll ih =>
      have rest : 2 * (poll + 1) + steps = 2 * poll + (steps + 2) := by omega
      rw [rest, ih (fun earlier before => reached earlier (Nat.lt_succ_of_lt before)),
        stoppableFrom_of_goesOn (reached poll (Nat.lt_succ_self poll))]

theorem ends_of_endsAt (reached : wait.Reaches order poll)
    (ends : wait.EndsAt order poll result finish count) :
    wait.Ends order result finish (wait.questions count) := by
  refine ⟨2 * poll + 2, ?_⟩
  have whole := stoppableFrom_of_reaches reached 2
  rwa [ends.stoppableFrom_eq 0] at whole

theorem ends_of_precedes_start (before : order.Precedes 0 wait.start) :
    wait.Ends order (.error (.interrupted wait.tx)) wait.start [] := by
  have noticed : wait.Forestalls order 0 := before.of_le (idle_le_began 0)
  have early : order.time ≤ wait.idle 0 := before.elim Nat.le_of_lt fun same => Nat.le_of_eq same.1
  have ends := ends_of_endsAt (fun _ none => absurd none (Nat.not_lt_zero _)) (.interrupted noticed)
  rwa [Nat.max_eq_left early] at ends

theorem FallsBefore.ends (falls : wait.FallsBefore order poll) :
    wait.Ends order (.error (.interrupted wait.tx)) order.time (wait.questions poll) := by
  have ends := ends_of_endsAt falls.reached (.interrupted falls.noticed)
  rwa [Nat.max_eq_right falls.idle] at ends

/-- An order that is given during a question is noticed before the next one. -/
theorem FallsInto.ends (falls : wait.FallsInto order poll)
    (undecided : ∀ other, ¬wait.Decides poll other) :
    wait.Ends order (.error (.interrupted wait.tx)) (wait.completed poll)
      (wait.questions (poll + 1)) := by
  have early : order.time ≤ wait.idle (poll + 1) := Nat.le_of_lt falls.unanswered
  have noticed : wait.Forestalls order (poll + 1) :=
    .inl (Nat.lt_of_lt_of_le falls.unanswered (idle_le_began (poll + 1)))
  have ends := ends_of_endsAt (falls.reached.succ ⟨falls.unnoticed, undecided⟩) (.interrupted noticed)
  rwa [Nat.max_eq_left early] at ends

/-- All runs end in the same way. -/
theorem Ends.unique {other : Except Error Unit} {asked instants : List Instant} {time : Instant}
    (ends : wait.Ends order result finish asked) (also : wait.Ends order other time instants) :
    result = other ∧ finish = time ∧ asked = instants := by
  obtain ⟨steps, done⟩ := ends
  obtain ⟨others, alsoDone⟩ := also
  cases Activity.run_unique done alsoDone
  exact ⟨rfl, rfl, rfl⟩

end

/-- The wait ends at the first question at which the order is noticed or the answer decides. -/
theorem ends_iff (result : Except Error Unit) (finish : Instant) (asked : List Instant) :
    wait.Ends order result finish asked ↔ ∃ poll count, wait.Reaches order poll ∧
      wait.EndsAt order poll result finish count ∧ asked = wait.questions count := by
  constructor
  · intro ends
    obtain ⟨poll, other, time, count, reached, endsAt⟩ := exists_endsAt wait order
    obtain ⟨rfl, rfl, rfl⟩ := ends.unique (ends_of_endsAt reached endsAt)
    exact ⟨poll, count, reached, endsAt, rfl⟩
  · rintro ⟨poll, count, reached, endsAt, rfl⟩
    exact ends_of_endsAt reached endsAt

/-- Under an order to stop, the wait ends, and in one way only. No question is asked after the order. An
order from before the start is noticed at once, without a question, and one that is given while a tick is
waited for, when it is given. A question is still answered: if the answer decides, that is the result, and
otherwise the order is noticed with the answer. An order that comes behind a decision changes nothing. -/
theorem heeds_order :
    (∃ result finish asked, wait.Ends order result finish asked) ∧
    ∀ result finish asked, wait.Ends order result finish asked →
      (∀ instant ∈ asked, instant ≤ order.time) ∧
      (order.Precedes 0 wait.start →
        result = .error (.interrupted wait.tx) ∧ finish = wait.start ∧ asked = []) ∧
      (∀ poll, wait.FallsBefore order poll →
        result = .error (.interrupted wait.tx) ∧ finish = order.time ∧
          asked = wait.questions poll) ∧
      (∀ poll, wait.FallsInto order poll →
        finish = wait.completed poll ∧ asked = wait.questions (poll + 1) ∧
          (wait.Decides poll result ∨
            (∀ other, ¬wait.Decides poll other) ∧ result = .error (.interrupted wait.tx))) ∧
      ∀ poll other, wait.Reaches order poll → ¬wait.Forestalls order poll →
        wait.Decides poll other →
          result = other ∧ finish = wait.completed poll ∧ asked = wait.questions (poll + 1) := by
  constructor
  · obtain ⟨poll, result, finish, count, reached, endsAt⟩ := exists_endsAt wait order
    exact ⟨result, finish, _, ends_of_endsAt reached endsAt⟩
  intro result finish asked ends
  refine ⟨?_, ?_, ?_, ?_, ?_⟩
  · obtain ⟨poll, count, reached, endsAt, rfl⟩ := (wait.ends_iff ..).1 ends
    exact endsAt.le_time reached
  · intro before
    exact ends.unique (ends_of_precedes_start before)
  · intro poll falls
    exact ends.unique falls.ends
  · intro poll falls
    by_cases decided : ∃ other, wait.Decides poll other
    · obtain ⟨other, decides⟩ := decided
      obtain ⟨rfl, isFinish, isAsked⟩ :=
        ends.unique (ends_of_endsAt falls.reached (.decided falls.unnoticed decides))
      exact ⟨isFinish, isAsked, .inl decides⟩
    · have undecided := not_exists.1 decided
      obtain ⟨isResult, isFinish, isAsked⟩ := ends.unique (falls.ends undecided)
      exact ⟨isFinish, isAsked, .inr ⟨undecided, isResult⟩⟩
  · intro poll other reached unnoticed decides
    exact ends.unique (ends_of_endsAt reached (.decided unnoticed decides))

/-- Questions every ten milliseconds without a limit, none of which is ever confirmed; every answer takes
a tenth of a second. -/
def dragging : Wait :=
  ⟨⟨Duration.ofMillis 10, none⟩, .millis, .zero 32, 0, fun _ => .ok false,
    fun _ => Duration.ofMillis 100⟩

/-- An order that comes behind a tick at the same moment. -/
def orderAt (time : Instant) : StopOrder := ⟨time, fun _ => false⟩

theorem heeds_order_of_hopeless :
    hopeless.Ends (orderAt (Duration.ofMillis 15)) (.error (.interrupted (.zero 32)))
        (Duration.ofMillis 15) [0, Duration.ofMillis 10] ∧
      dragging.Ends (orderAt (Duration.ofMillis 50)) (.error (.interrupted (.zero 32)))
        (Duration.ofMillis 100) [0] ∧
      belated.Ends (orderAt (Duration.ofMillis 50)) (.ok ()) (Duration.ofMillis 100) [0] ∧
      belated.Ends ⟨0, fun _ => true⟩ (.error (.interrupted (.zero 32))) 0 [] := by
  refine ⟨?_, ?_, ?_, ?_⟩
  · have falls : hopeless.FallsBefore (orderAt (Duration.ofMillis 15)) 2 := by
      refine ⟨?_, by decide, .inl (by decide)⟩
      intro earlier before
      refine ⟨?_, not_decides .unconfirmed ?_⟩
      · revert earlier
        decide
      · rintro limit ⟨⟩
        revert earlier
        decide
    obtain ⟨⟨_, _, _, ends⟩, endings⟩ := hopeless.heeds_order (orderAt (Duration.ofMillis 15))
    obtain ⟨_, _, waiting, _⟩ := endings _ _ _ ends
    obtain ⟨rfl, rfl, rfl⟩ := waiting 2 falls
    exact ends
  · have falls : dragging.FallsInto (orderAt (Duration.ofMillis 50)) 0 :=
      ⟨fun _ none => absurd none (Nat.not_lt_zero _), by decide, by decide⟩
    have undecided : ∀ other, ¬dragging.Decides 0 other := not_decides .unconfirmed (by rintro _ ⟨⟩)
    obtain ⟨⟨_, _, _, ends⟩, endings⟩ := dragging.heeds_order (orderAt (Duration.ofMillis 50))
    obtain ⟨_, _, _, asking, _⟩ := endings _ _ _ ends
    obtain ⟨rfl, rfl, decides | ⟨_, rfl⟩⟩ := asking 0 falls
    · exact absurd decides (undecided _)
    · exact ends
  · have unnoticed : ¬belated.Forestalls (orderAt (Duration.ofMillis 50)) 0 := by decide
    obtain ⟨⟨_, _, _, ends⟩, endings⟩ := belated.heeds_order (orderAt (Duration.ofMillis 50))
    obtain ⟨_, _, _, _, decided⟩ := endings _ _ _ ends
    obtain ⟨rfl, rfl, rfl⟩ :=
      decided 0 _ (fun _ none => absurd none (Nat.not_lt_zero _)) unnoticed (.confirmed rfl)
    exact ends
  · obtain ⟨⟨_, _, _, ends⟩, endings⟩ := belated.heeds_order ⟨0, fun _ => true⟩
    obtain ⟨_, beforehand, _⟩ := endings _ _ _ ends
    obtain ⟨rfl, rfl, rfl⟩ := beforehand (.inr ⟨rfl, rfl⟩)
    exact ends

end Wait

end MiningPool.Confirmation
