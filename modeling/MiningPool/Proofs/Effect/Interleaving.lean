/-
Module: MiningPool.Proofs.Effect.Interleaving
Purpose: activities over shared data that take turns in any order.
Main exports: Program, Program.Step, Program.Run, Program.Run.exclusive, Program.Run.invariant
-/
import Mathlib.Data.List.Induction
import MiningPool.Effect.Activity

/-!
Requests arrive at any time, and every one starts an activity. In every step one of the activities is
given what it waits for. Nothing is said about the order of the steps, about the answers of collaborators
or about the time, except that a lock is given to nobody while it is held and that a wait for a tick is
cancelled only after the order to stop, and only for a request that heeds it.

An activity whose arithmetic leads beyond the longest duration breaks off: it makes no further step and keeps
what it holds. What would become of the others when it is cleared away is not described. It does not come to
that with delays whose doubles are durations, such as those from settings.
-/

namespace MiningPool

/-! ### What an activity is given -/

/-- A query and its answer. -/
structure Exchange (I : Interface) where
  query : I.Query
  answer : Except Error (I.Answer query)

namespace Await

variable {I : Interface}

/-- The locks that the end of a wait brings. -/
def locks : Await I → List Lock
  | lock wanted => [wanted]
  | _ => []

/-- A wait that brings no lock does not depend on what is held. -/
theorem free_of_lockless {await : Await I} {held : List Lock} (lockless : await.locks = []) :
    ∀ lock ∈ await.locks, lock ∉ held := by
  rw [lockless]
  intro lock taken
  cases taken

/-- The query that is being asked. -/
def query? : Await I → Option I.Query
  | ask query => some query
  | _ => none

/-- The exchange that a wait ends with. -/
def exchange? : (await : Await I) → await.Reply → Option (Exchange I)
  | ask query, answer => some ⟨query, answer⟩
  | _, _ => none

theorem query?_of_exchange? {await : Await I} {reply : await.Reply} {exchange : Exchange I}
    (answered : await.exchange? reply = some exchange) : await.query? = some exchange.query := by
  cases await with
  | ask query =>
      cases answered
      rfl
  | draw => cases answered
  | pause duration => cases answered
  | tick due => cases answered
  | lock lock => cases answered
  | never => cases reply

/-- The wait ends because of the order to stop. -/
def Cancelled : (await : Await I) → await.Reply → Prop
  | tick _, outcome => outcome = TickOutcome.cancelled
  | _, _ => False

end Await

/-! ### Programs and their runs -/

/-- What can be requested, and the activity that serves each request. An activity starts without locks,
and it holds a lock only after it has waited for it. -/
structure Program (I : Interface) (ρ : Type) where
  Request : Type
  Phase : Type
  Result : Type
  initial : ρ
  /-- The first step, which waits for nothing. -/
  begin : Request → ρ → Instant → Phase ⊕ Result
  activity : Activity I ρ Phase Result
  held : Phase → List Lock
  /-- Which requests heed the order to stop. -/
  heedsStop : Request → Bool
  held_begin : ∀ {request data now phase}, begin request data now = .inl phase → held phase = []
  held_resume : ∀ {data now phase reply next},
    (activity.resume data now phase reply).2 = .inl next →
      ∀ lock ∈ held next, lock ∈ held phase ∨ lock ∈ (activity.await phase).locks

namespace Program

variable {I : Interface} {ρ : Type}

/-- A request and how far it has come. -/
structure Call (program : Program I ρ) where
  request : program.Request
  stage : program.Phase ⊕ program.Result

/-- The data, all requests so far in the order of their arrival, and the order to stop. -/
structure System (program : Program I ρ) where
  data : ρ
  calls : List program.Call
  stopped : Bool

/-- An activity that is given what it waits for. -/
structure Move (program : Program I ρ) where
  caller : Nat
  request : program.Request
  phase : program.Phase
  /-- The data before the step. -/
  data : ρ
  now : Instant
  reply : (program.activity.await phase).Reply

/-- What happens in one step. -/
inductive Event (program : Program I ρ) where
  | arrived (request : program.Request)
  | stopped
  | moved (move : program.Move)

variable {program : Program I ρ}

/-- The locks that a call holds. -/
def Call.held (call : program.Call) : List Lock :=
  match call.stage with
  | .inl phase => program.held phase
  | .inr _ => []

/-- The query that a call is asking. -/
def Call.query? (call : program.Call) : Option I.Query :=
  match call.stage with
  | .inl phase => (program.activity.await phase).query?
  | .inr _ => none

namespace Move

/-- The call that moves. -/
def call (move : program.Move) : program.Call := ⟨move.request, .inl move.phase⟩

/-- The locks that the call takes with this step. -/
def locks (move : program.Move) : List Lock := (program.activity.await move.phase).locks

/-- The exchange that ends with this step. -/
def exchange? (move : program.Move) : Option (Exchange I) :=
  (program.activity.await move.phase).exchange? move.reply

/-- The data after the step. -/
def after (move : program.Move) : ρ :=
  (program.activity.resume move.data move.now move.phase move.reply).1

/-- The call after the step. -/
def next (move : program.Move) : program.Call :=
  ⟨move.request, (program.activity.resume move.data move.now move.phase move.reply).2⟩

/-- No lock of the other call is held or taken by the one that moves. -/
def Apart (move : program.Move) (other : program.Call) : Prop :=
  ∀ lock ∈ other.held, lock ∉ move.call.held ∧ lock ∉ move.locks

end Move

/-- Nobody holds the lock. -/
def System.Free (system : program.System) (lock : Lock) : Prop :=
  ∀ call ∈ system.calls, lock ∉ call.held

inductive Step : program.System → program.Event → program.System → Prop where
  | arrive (system : program.System) (request : program.Request) (now : Instant) :
      Step system (.arrived request)
        { system with
          calls := system.calls ++ [⟨request, program.begin request system.data now⟩] }
  | stop (system : program.System) : Step system .stopped { system with stopped := true }
  | move (system : program.System) (move : program.Move)
      (running : system.calls[move.caller]? = some move.call)
      (data : move.data = system.data)
      (free : ∀ lock ∈ move.locks, system.Free lock)
      (told : (program.activity.await move.phase).Cancelled move.reply →
        system.stopped = true ∧ program.heedsStop move.request = true) :
      Step system (.moved move)
        { system with data := move.after, calls := system.calls.set move.caller move.next }

/-- The events from the start up to a system. -/
inductive Run : List program.Event → program.System → Prop where
  | start : Run [] ⟨program.initial, [], false⟩
  | step {trace : List program.Event} {system next : program.System} {event : program.Event}
      (run : Run trace system) (step : Step system event next) : Run (trace ++ [event]) next

/-- The last step of a run. -/
theorem Run.of_concat {trace : List program.Event} {event : program.Event} {system : program.System}
    (run : Run (trace ++ [event]) system) : ∃ before, Run trace before ∧ Step before event system := by
  generalize split : trace ++ [event] = whole at run
  cases run with
  | start => exact absurd split (List.append_ne_nil_of_right_ne_nil _ (List.cons_ne_nil _ _))
  | step run step =>
      obtain ⟨rfl, same⟩ := List.append_inj' split rfl
      cases same
      exact ⟨_, run, step⟩

/-- A run has come by every one of its events. -/
theorem Run.exists_step {early late : List program.Event} {event : program.Event}
    {system : program.System} (run : Run (early ++ event :: late) system) :
    ∃ before after, Run early before ∧ Step before event after := by
  induction late using List.reverseRecOn generalizing system with
  | nil =>
      obtain ⟨before, run, step⟩ := run.of_concat
      exact ⟨before, system, run, step⟩
  | append_singleton late last ih =>
      rw [← List.cons_append, ← List.append_assoc] at run
      obtain ⟨_, shorter, _⟩ := run.of_concat
      exact ih shorter

/-- The call that has come last moves while the others hold no lock. -/
theorem Run.move_last {trace : List program.Event} {data after : ρ} {calls : List program.Call}
    {stopped : Bool} {request : program.Request} {phase : program.Phase}
    {stage : program.Phase ⊕ program.Result}
    (run : Run trace ⟨data, calls ++ [⟨request, .inl phase⟩], stopped⟩)
    (idle : ∀ call ∈ calls, call.held = []) (now : Instant)
    (reply : (program.activity.await phase).Reply)
    (free : ∀ lock ∈ (program.activity.await phase).locks, lock ∉ program.held phase)
    (told : ¬(program.activity.await phase).Cancelled reply)
    (resumed : program.activity.resume data now phase reply = (after, stage)) :
    Run (trace ++ [.moved ⟨calls.length, request, phase, data, now, reply⟩])
      ⟨after, calls ++ [⟨request, stage⟩], stopped⟩ := by
  have alone : ∀ lock ∈ (program.activity.await phase).locks,
      ∀ call ∈ calls ++ [⟨request, .inl phase⟩], lock ∉ call.held := by
    intro lock taken call member
    rcases List.mem_append.1 member with other | last
    · rw [idle call other]
      exact List.not_mem_nil
    · rw [List.mem_singleton.1 last]
      exact free lock taken
  have step := run.step (.move _ ⟨calls.length, request, phase, data, now, reply⟩
    List.getElem?_concat_length rfl alone fun cancelled => absurd cancelled told)
  simp only [Move.after, Move.next, resumed] at step
  rwa [List.set_append_right _ _ (Nat.le_refl _), Nat.sub_self] at step

/-- Some run ends in the system. -/
def Reachable (system : program.System) : Prop := ∃ trace, Run trace system

/-- Some run that begins with the events ends in the system. -/
def ReachableAfter (early : List program.Event) (system : program.System) : Prop :=
  ∃ late, Run (early ++ late) system

theorem Run.reachableAfter {trace : List program.Event} {system : program.System}
    (run : Run trace system) : ReachableAfter trace system :=
  ⟨[], by rwa [List.append_nil]⟩

theorem reachableAfter_nil {system : program.System} :
    ReachableAfter [] system ↔ Reachable system := Iff.rfl

namespace ReachableAfter

variable {early : List program.Event} {data after : ρ} {calls : List program.Call} {stopped : Bool}

theorem arrive (reachable : ReachableAfter early ⟨data, calls, stopped⟩)
    (request : program.Request) (now : Instant) :
    ReachableAfter early
      ⟨data, calls ++ [⟨request, program.begin request data now⟩], stopped⟩ := by
  obtain ⟨late, run⟩ := reachable
  have arrived := run.step (.arrive _ request now)
  rw [List.append_assoc] at arrived
  exact ⟨_, arrived⟩

theorem move_last {request : program.Request} {phase : program.Phase}
    {stage : program.Phase ⊕ program.Result}
    (reachable : ReachableAfter early ⟨data, calls ++ [⟨request, .inl phase⟩], stopped⟩)
    (idle : ∀ call ∈ calls, call.held = []) (now : Instant)
    (reply : (program.activity.await phase).Reply)
    (free : ∀ lock ∈ (program.activity.await phase).locks, lock ∉ program.held phase)
    (told : ¬(program.activity.await phase).Cancelled reply)
    (resumed : program.activity.resume data now phase reply = (after, stage)) :
    ReachableAfter early ⟨after, calls ++ [⟨request, stage⟩], stopped⟩ := by
  obtain ⟨late, run⟩ := reachable
  have moved := run.move_last idle now reply free told resumed
  rw [List.append_assoc] at moved
  exact ⟨_, moved⟩

end ReachableAfter

/-- What is recorded of a run grows with its events. -/
theorem filterMap_concat {α β : Type} (items : List α) (item : α) (collect : α → Option β) :
    (items ++ [item]).filterMap collect = items.filterMap collect ++ (collect item).toList := by
  rw [List.filterMap_append]
  cases collected : collect item <;> simp [collected]

/-! ### Locks -/

/-- No lock is held by two calls. -/
def System.Exclusive (system : program.System) : Prop :=
  ∀ ⦃one two : Nat⦄ ⦃first second : program.Call⦄, one ≠ two →
    system.calls[one]? = some first → system.calls[two]? = some second →
      ∀ lock ∈ first.held, lock ∉ second.held

/-- A call after an arrival is the new one or has been there before. -/
theorem getElem?_calls_arrive {calls : List program.Call} {new call : program.Call} {index : Nat}
    (found : (calls ++ [new])[index]? = some call) :
    (index = calls.length ∧ call = new) ∨ calls[index]? = some call := by
  rcases Nat.lt_trichotomy index calls.length with below | same | above
  · rw [List.getElem?_append_left below] at found
    exact .inr found
  · subst same
    simp at found
    exact .inl ⟨rfl, found.symm⟩
  · rw [List.getElem?_eq_none (by simp; omega)] at found
    cases found

/-- A call after a step is the one that moved or another one, which has not changed. -/
theorem getElem?_calls_move {calls : List program.Call} {new call : program.Call}
    {caller index : Nat} (found : (calls.set caller new)[index]? = some call) :
    (index = caller ∧ call = new) ∨ (index ≠ caller ∧ calls[index]? = some call) := by
  by_cases same : index = caller
  · subst same
    rw [List.getElem?_set_self'] at found
    obtain ⟨_, _, rfl⟩ := Option.map_eq_some_iff.1 found
    exact .inl ⟨rfl, rfl⟩
  · rw [List.getElem?_set_ne (Ne.symm same)] at found
    exact .inr ⟨same, found⟩

theorem held_arrive (request : program.Request) (data : ρ) (now : Instant) :
    (⟨request, program.begin request data now⟩ : program.Call).held = [] := by
  simp only [Call.held]
  split
  · rename_i phase begun
    exact program.held_begin begun
  · rfl

/-- What is held after a step has been held before or was taken with it. -/
theorem Move.held_next (move : program.Move) :
    ∀ lock ∈ move.next.held, lock ∈ move.call.held ∨ lock ∈ move.locks := by
  intro lock held
  simp only [Call.held] at held
  split at held
  · rename_i phase moved
    exact program.held_resume moved lock held
  · cases held

/-- Others share no lock with the call that moves, neither before nor after its step. -/
theorem System.Exclusive.apart {system : program.System} {move : program.Move}
    (exclusive : system.Exclusive) (running : system.calls[move.caller]? = some move.call)
    (free : ∀ lock ∈ move.locks, system.Free lock) {index : Nat} {other : program.Call}
    (elsewhere : index ≠ move.caller) (found : system.calls[index]? = some other) :
    move.Apart other := by
  intro lock held
  refine ⟨exclusive elsewhere found running lock held, ?_⟩
  intro taken
  exact free lock taken other (List.mem_of_getElem? found) held

theorem Step.exclusive {system next : program.System} {event : program.Event}
    (exclusive : system.Exclusive) (step : Step system event next) : next.Exclusive := by
  cases step with
  | arrive request now =>
      intro one two first second different firstFound secondFound lock held
      rcases getElem?_calls_arrive firstFound with ⟨rfl, rfl⟩ | firstFound
      · rw [held_arrive] at held
        cases held
      · rcases getElem?_calls_arrive secondFound with ⟨rfl, rfl⟩ | secondFound
        · rw [held_arrive]
          exact List.not_mem_nil
        · exact exclusive different firstFound secondFound lock held
  | stop => exact exclusive
  | move move running data free told =>
      intro one two first second different firstFound secondFound lock held
      rcases getElem?_calls_move firstFound with ⟨rfl, rfl⟩ | ⟨firstElsewhere, firstFound⟩
      · rcases getElem?_calls_move secondFound with ⟨rfl, rfl⟩ | ⟨secondElsewhere, secondFound⟩
        · exact absurd rfl different
        · intro secondHeld
          have apart := exclusive.apart running free secondElsewhere secondFound lock secondHeld
          exact (move.held_next lock held).elim apart.1 apart.2
      · rcases getElem?_calls_move secondFound with ⟨rfl, rfl⟩ | ⟨secondElsewhere, secondFound⟩
        · intro secondHeld
          have apart := exclusive.apart running free firstElsewhere firstFound lock held
          exact (move.held_next lock secondHeld).elim apart.1 apart.2
        · exact exclusive different firstFound secondFound lock held

/-- Mutual exclusion. -/
theorem Run.exclusive {trace : List program.Event} {system : program.System}
    (run : Run trace system) : system.Exclusive := by
  induction run with
  | start =>
      intro one two first second _ firstFound
      simp at firstFound
  | step _ step ih => exact step.exclusive ih

/-! ### Invariants -/

/-- What is to be shown for an invariant of the data and of every call: it holds at the start and for
new calls, the call that moves preserves it, and it does not break it for calls that share no lock
with it. -/
structure Invariant (program : Program I ρ) (good : ρ → Prop) (sound : ρ → program.Call → Prop) :
    Prop where
  initial : good program.initial
  arrive : ∀ {data} (request now), good data → sound data ⟨request, program.begin request data now⟩
  own : ∀ move : program.Move, good move.data → sound move.data move.call →
    good move.after ∧ sound move.after move.next
  others : ∀ (move : program.Move) (other : program.Call), good move.data →
    sound move.data move.call → sound move.data other → move.Apart other → sound move.after other

theorem Run.invariant {good : ρ → Prop} {sound : ρ → program.Call → Prop}
    (invariant : Invariant program good sound) {trace : List program.Event}
    {system : program.System} (run : Run trace system) :
    good system.data ∧ ∀ call ∈ system.calls, sound system.data call := by
  induction run with
  | start =>
      refine ⟨invariant.initial, ?_⟩
      intro call member
      cases member
  | step run step ih =>
      obtain ⟨goodBefore, soundBefore⟩ := ih
      cases step with
      | arrive request now =>
          refine ⟨goodBefore, ?_⟩
          intro call member
          rcases List.mem_append.1 member with before | new
          · exact soundBefore call before
          · rw [List.mem_singleton.1 new]
            exact invariant.arrive request now goodBefore
      | stop => exact ⟨goodBefore, soundBefore⟩
      | move move running data free told =>
          rw [← data] at goodBefore soundBefore
          have soundCall := soundBefore _ (List.mem_of_getElem? running)
          obtain ⟨goodAfter, soundNext⟩ := invariant.own move goodBefore soundCall
          refine ⟨goodAfter, ?_⟩
          intro call member
          obtain ⟨index, found⟩ := List.mem_iff_getElem?.1 member
          rcases getElem?_calls_move found with ⟨_, rfl⟩ | ⟨elsewhere, before⟩
          · exact soundNext
          · have apart := run.exclusive.apart running free elsewhere before
            exact invariant.others move call goodBefore soundCall
              (soundBefore call (List.mem_of_getElem? before)) apart

end Program

end MiningPool
