/-
Module: MiningPool.Proofs.Rpc.Server
Purpose: a pool that answers messages while it looks after its claims.
Main exports: Rpc.Server.program, Rpc.Server.Proper, Rpc.Server.Fails, Rpc.Server.course_of_call
-/
import MiningPool.Proofs.Effect.Course
import MiningPool.Proofs.Work.Program
import MiningPool.Rpc.Exchange

/-!
To the pool, answering a message is serving the call that the message asks for; the identifier is carried
along and only put into the response. A message that asks for no call is answered when it arrives.
-/

namespace MiningPool.Rpc.Server

/-- What a server is to do. -/
inductive Task where
  | answer (message : Message)
  /-- Look after the claims, without a new share. -/
  | tend (request : Ledger.Request) (shareless : request.share? = none)

inductive Phase where
  | answering (exchange : Exchange)
  | tending (phase : Ledger.Phase)

inductive Result where
  | replied (reply : Reply)
  | tended (result : Ledger.Result)

/-- What the pool does meanwhile. -/
def Phase.inside : Phase → Pool.Phase
  | answering exchange => .serving exchange.phase
  | tending phase => .tending phase

def begin (settings : LedgerSettings) (state : PoolState) (now : Instant) : Task → Phase ⊕ Result
  | .answer message => (Exchange.begin state message).map .answering .replied
  | .tend request _ => .inl (.tending (Ledger.begin settings request now))

def await (phase : Phase) : Await pool := Pool.await phase.inside

section

variable (settings : LedgerSettings) (shareDifficulty : Nat) (state : PoolState)

def resume (now : Instant) : (phase : Phase) → (await phase).Reply → PoolState × (Phase ⊕ Result)
  | .answering exchange, reply =>
    let (state, next) := (Exchange.activity settings shareDifficulty).resume state now exchange reply
    (state, next.map .answering .replied)
  | .tending phase, reply =>
    let (ledger, next) := Ledger.resume settings state.ledger now phase reply
    ({ state with ledger }, next.map .tending .tended)

/-- What the call of the service comes to, when it ends with a step. -/
def served? : (phase : Phase) → (await phase).Reply → Option (Except Error Service.Answer)
  | .answering exchange, reply =>
    (Service.resume settings shareDifficulty state exchange.phase reply).2.getRight?
  | .tending _, _ => none

end

variable {settings : LedgerSettings} {shareDifficulty : Nat} {state : PoolState} {now : Instant}

/-! ### The program -/

/-- A message that is not answered at once holds a request, and that asks for a call. -/
theorem call_of_begin {message : Message} {exchange : Exchange}
    (begun : Exchange.begin state message = .inl exchange) :
    ∃ request call, message.request = .ok request ∧ request.call = .ok call ∧
      Service.begin state call = .inl exchange.phase := by
  rw [Exchange.begin] at begun
  split at begun
  · cases begun
  split at begun
  · cases begun
  split at begun
  · cases begun
  rename_i request held
  rw [Exchange.serve] at begun
  split at begun
  · cases begun
  rename_i call asked
  split at begun
  · rename_i phase served
    cases begun
    exact ⟨request, call, held, asked, served⟩
  · cases begun

/-- A task that begins is something that is asked of the pool. -/
theorem begin_inside {task : Task} {phase : Phase} (begun : begin settings state now task = .inl phase) :
    ∃ request, Pool.begin settings state now request = .inl phase.inside := by
  cases task with
  | answer message =>
      rw [begin] at begun
      cases begins : Exchange.begin state message with
      | inl exchange =>
          obtain ⟨_, call, _, _, served⟩ := call_of_begin begins
          rw [begins] at begun
          cases begun
          exact ⟨.serve call, congrArg (Sum.map Pool.Phase.serving Pool.Result.answered) served⟩
      | inr reply =>
          rw [begins] at begun
          cases begun
  | tend request shareless =>
      cases begun
      exact ⟨.tend request shareless, rfl⟩

/-- A step of a message that is being answered. -/
theorem resume_answering (exchange : Exchange) (reply : (await (.answering exchange)).Reply) :
    (∃ next, (resume settings shareDifficulty state now (.answering exchange) reply).2 =
        .inl (.answering { exchange with phase := next }) ∧
      (Service.resume settings shareDifficulty state exchange.phase reply).2 = .inl next) ∨
    ∃ result, (resume settings shareDifficulty state now (.answering exchange) reply).2 =
        .inr (.replied (.response (.ofResult exchange.id result))) ∧
      (Service.resume settings shareDifficulty state exchange.phase reply).2 = .inr result := by
  simp only [resume, Exchange.activity]
  generalize Service.resume settings shareDifficulty state exchange.phase reply = result
  obtain ⟨after, next | answer⟩ := result
  · exact .inl ⟨next, rfl, rfl⟩
  · exact .inr ⟨answer, rfl, rfl⟩

/-- While a task goes on, so does the pool. -/
theorem resume_inside {phase next : Phase} {reply : (await phase).Reply}
    (resumed : (resume settings shareDifficulty state now phase reply).2 = .inl next) :
    (Pool.resume settings shareDifficulty state now phase.inside reply).2 = .inl next.inside := by
  cases phase with
  | answering exchange =>
      rcases resume_answering exchange reply with ⟨goesOn, same, served⟩ | ⟨result, same, _⟩
      · rw [same] at resumed
        cases resumed
        exact congrArg (Sum.map Pool.Phase.serving Pool.Result.answered) served
      · rw [same] at resumed
        cases resumed
  | tending phase =>
      simp only [resume] at resumed
      simp only [Phase.inside, Pool.resume]
      revert resumed
      generalize Ledger.resume settings state.ledger now phase reply = result
      obtain ⟨ledger, goesOn | result⟩ := result
      · rintro ⟨⟩
        rfl
      · rintro ⟨⟩

variable (settings shareDifficulty) in
/-- A server that many use at once. Only the cycles heed the order to stop. -/
abbrev program : Program pool PoolState where
  Request := Task
  Phase := Phase
  Result := Result
  initial := .fresh
  begin task state now := begin settings state now task
  activity := ⟨await, resume settings shareDifficulty⟩
  held phase := phase.inside.part.held
  heedsStop
    | .tend .cycle _ => true
    | _ => false
  held_begin := by
    intro task state now phase begun
    obtain ⟨request, inside⟩ := begin_inside begun
    exact (Pool.program settings shareDifficulty).held_begin inside
  held_resume resumed := (Pool.program settings shareDifficulty).held_resume (resume_inside resumed)

/-! ### One message -/

section

variable (moves : List (program settings shareDifficulty).Move)

/-- What the call of the service comes to with a step, if it ends with it. -/
def served (move : (program settings shareDifficulty).Move) : Option (Except Error Service.Answer) :=
  served? settings shareDifficulty move.data move.phase move.reply

/-- With one of the steps the call of the service fails. -/
def Fails (error : Error) : Prop := ∃ move ∈ moves, served move = some (.error error)

/-- No collaborator says with a step that the parameters are at fault. -/
def Proper (move : (program settings shareDifficulty).Move) : Prop :=
  ∀ query error, move.exchange? = some ⟨query, .error error⟩ → error.kind ≠ .invalidParams

end

variable {moves : List (program settings shareDifficulty).Move} {error : Error}
  {move : (program settings shareDifficulty).Move}

/-- The service does not say either that the parameters are at fault. -/
theorem kind_of_served (positive : 0 < shareDifficulty) (proper : Proper move)
    (failed : served move = some (.error error)) : error.kind ≠ .invalidParams := by
  obtain ⟨caller, task, phase, data, now, reply⟩ := move
  cases phase with
  | answering exchange =>
      have step : Service.Step settings shareDifficulty data exchange.phase _ _ _ _ :=
        Service.resume_step exchange.phase reply
      rw [Sum.getRight?_eq_some_iff.1 failed] at step
      exact step.kind_of_failed positive proper
  | tending phase => cases failed

theorem fails_concat (moves : List (program settings shareDifficulty).Move)
    (move : (program settings shareDifficulty).Move) (error : Error) :
    Fails (moves ++ [move]) error ↔ Fails moves error ∨ served move = some (.error error) := by
  simp only [Fails, List.mem_append, List.mem_singleton]
  constructor
  · rintro ⟨other, before | rfl, failed⟩
    · exact .inl ⟨other, before, failed⟩
    · exact .inr failed
  · rintro (⟨other, before, failed⟩ | failed)
    · exact ⟨other, .inl before, failed⟩
    · exact ⟨move, .inr rfl, failed⟩

/-- A message whose request asks for a call is answered as soon as the call of the service has come to a
result, with this result and with the identifier of the request. -/
inductive Stands (id : Json) (moves : List (program settings shareDifficulty).Move) :
    Phase ⊕ Result → Prop where
  | answering {exchange : Exchange} (same : exchange.id = id) (none : ∀ move ∈ moves, served move = none) :
      Stands id moves (.inl (.answering exchange))
  | replied {result : Except Error Service.Answer}
      (fails : ∀ error, Fails moves error ↔ result = .error error) :
      Stands id moves (.inr (.replied (.response (.ofResult id result))))

theorem not_fails_nil (error : Error) :
    ¬Fails ([] : List (program settings shareDifficulty).Move) error := by
  rintro ⟨move, member, _⟩
  exact List.not_mem_nil member

/-- A call of the service does not fail before anybody has been asked. -/
theorem stands_of_serve {request : Rpc.Request} {call : Service.Call} (asked : request.call = .ok call) :
    Stands request.id ([] : List (program settings shareDifficulty).Move)
      ((Exchange.serve state request).map .answering .replied) := by
  rw [Exchange.serve, asked]
  simp only
  cases call with
  | getWork => exact .answering rfl (List.forall_mem_nil _)
  | submitWork nonce powHash mixDigest =>
      cases found : state.works.get? powHash with
      | none =>
          simp only [Service.begin, found]
          exact .replied fun error => iff_of_false (not_fails_nil error) (by rintro ⟨⟩)
      | some work =>
          simp only [Service.begin, found]
          exact .answering rfl (List.forall_mem_nil _)
  | submitHashrate rate id => exact .answering rfl (List.forall_mem_nil _)

theorem Stands.step {id : Json} (stands : Stands id moves (.inl move.phase)) :
    Stands id (moves ++ [move]) move.next.stage := by
  obtain ⟨caller, task, phase, data, now, reply⟩ := move
  generalize same : (Sum.inl phase : Phase ⊕ Result) = stage at stands
  cases stands with
  | @answering exchange own none =>
      cases same
      rcases resume_answering exchange reply with ⟨next, goesOn, inside⟩ | ⟨result, ends, inside⟩
      · rw [Program.Move.next, goesOn]
        refine .answering own (List.forall_mem_append.2 ⟨none, List.forall_mem_singleton.2 ?_⟩)
        rw [served, served?, inside]
        rfl
      · rw [Program.Move.next, ends, own]
        refine .replied fun error => ?_
        rw [fails_concat, served, served?, inside, Sum.getRight?_inr, Option.some.injEq, or_iff_right]
        rintro ⟨move, member, failed⟩
        rw [none move member] at failed
        cases failed
  | replied fails => cases same

/-- Whatever others do in between, and in whatever order. -/
theorem stands_of_course {id : Json} {task : Task} {begun stage : Phase ⊕ Result}
    (start : Stands id ([] : List (program settings shareDifficulty).Move) begun)
    (course : Program.Course task begun moves stage) : Stands id moves stage := by
  induction course with
  | start => exact start
  | step course own ih => exact ih.step

end MiningPool.Rpc.Server
