/-
Module: MiningPool.Proofs.Ledger.Program
Purpose: a ledger that is used by many at once, as a program over shared data.
Main exports: Ledger.program, Ledger.ended?, Ledger.Part.Step, Ledger.Part.Course,
  Ledger.resume_course
-/
import MiningPool.Ledger.Cycle
import MiningPool.Proofs.Ledger.Audit
import MiningPool.Proofs.Ledger.Rotation

/-!
Shares are taken in, the open claim is submitted and submitted claims are audited, each on request, and
any number of cycles do the last two at regular intervals. A cycle does what the others do, one part after
the other, so that only the parts have to be looked at.
-/

namespace MiningPool.Ledger

/-- What is asked of a ledger. -/
inductive Request where
  | add (share : Share)
  /-- Submit the open claim if it has enough shares. -/
  | rotate
  /-- Audit a submitted claim. -/
  | verify
  /-- Submit and audit at regular intervals. -/
  | cycle

inductive Phase where
  | rotating (phase : Rotation.Phase)
  | auditing (phase : Audit.Phase)
  | cycling (phase : Cycle.Phase)

inductive Result where
  | rotated (outcome : Except Error Rotation.Outcome)
  | audited (outcome : Except Error (Option Verification))
  | ended (outcome : Except Error Unit)

/-- The share of a request. -/
def Request.share? : Request → Option Share
  | add share => some share
  | _ => none

/-- Only a request to add a share has one. -/
theorem Request.eq_add_of_share?_eq {request : Request} {share : Share}
    (carried : request.share? = some share) : request = .add share := by
  cases request with
  | add other =>
      cases carried
      rfl
  | rotate => cases carried
  | verify => cases carried
  | cycle => cases carried

def begin (settings : LedgerSettings) : Request → Instant → Phase
  | .add share, _ => .rotating (.entering (some share))
  | .rotate, _ => .rotating (.entering none)
  | .verify, _ => .auditing .entering
  | .cycle, now => .cycling (Cycle.start settings now)

def await : Phase → Await pool
  | .rotating phase => Rotation.await phase
  | .auditing phase => Audit.await phase
  | .cycling phase => Cycle.await phase

def resume (settings : LedgerSettings) (ledger : Ledger) (now : Instant) :
    (phase : Phase) → (await phase).Reply → Ledger × (Phase ⊕ Result)
  | .rotating phase, reply =>
    let (ledger, next) := Rotation.resume settings ledger phase reply
    (ledger, next.map .rotating .rotated)
  | .auditing phase, reply =>
    let (ledger, next) := Audit.resume settings ledger now phase reply
    (ledger, next.map .auditing .audited)
  | .cycling phase, reply =>
    let (ledger, next) := Cycle.resume settings ledger now phase reply
    (ledger, next.map .cycling .ended)

/-- What submitting a claim or auditing one has come to. -/
inductive Ended where
  | rotated (outcome : Except Error Rotation.Outcome)
  | audited (outcome : Except Error (Option Verification))

/-- What comes to its end with a step. In a cycle other rounds follow. -/
def ended? (settings : LedgerSettings) (ledger : Ledger) (now : Instant) :
    (phase : Phase) → (await phase).Reply → Option Ended
  | .rotating phase, reply => (Rotation.resume settings ledger phase reply).2.getRight?.map .rotated
  | .auditing phase, reply =>
    (Audit.resume settings ledger now phase reply).2.getRight?.map .audited
  | .cycling (.waiting _), _ => none
  | .cycling (.rotating _ phase), reply =>
    (Rotation.resume settings ledger phase reply).2.getRight?.map .rotated
  | .cycling (.auditing _ phase), reply =>
    (Audit.resume settings ledger now phase reply).2.getRight?.map .audited

/-! ### The parts of the activities -/

/-- What an activity is busy with: nothing, a claim to submit, or an audit. -/
inductive Part where
  | idle
  | rotation (phase : Rotation.Phase)
  | audit (phase : Audit.Phase)

namespace Part

/-- What is being waited for, unless it is a round of the cycle. -/
def await? : Part → Option (Await pool)
  | idle => none
  | rotation phase => some (Rotation.await phase)
  | audit phase => some (Audit.await phase)

/-- The locks that the end of the wait brings. -/
def locks (part : Part) : List Lock := part.await?.elim [] Await.locks

/-- The query that is being asked. -/
def query? (part : Part) : Option PoolQuery := part.await?.bind Await.query?

/-- The ledger is held while a claim is being submitted, and the right to audit from the pick on. -/
def held : Part → List Lock
  | idle => []
  | rotation (.entering _) => []
  | rotation (.submitting _ _) => [.ledger]
  | audit .entering => []
  | audit _ => [.audit]

end Part

def Phase.part : Phase → Part
  | rotating phase => .rotation phase
  | auditing phase => .audit phase
  | cycling (.waiting _) => .idle
  | cycling (.rotating _ phase) => .rotation phase
  | cycling (.auditing _ phase) => .audit phase

/-- What an activity is busy with after a step. -/
def partAfter : Phase ⊕ Result → Part
  | .inl phase => phase.part
  | .inr _ => .idle

theorem locks_await (phase : Phase) : (await phase).locks = phase.part.locks := by
  cases phase with
  | rotating phase => rfl
  | auditing phase => rfl
  | cycling phase => cases phase <;> rfl

theorem query?_await (phase : Phase) : (await phase).query? = phase.part.query? := by
  cases phase with
  | rotating phase => rfl
  | auditing phase => rfl
  | cycling phase => cases phase <;> rfl

/-- A summary is shown to the contract while its claim is being submitted. -/
theorem Part.of_query?_eq_submitClaim {part : Part} {summary : ClaimSummary}
    (asks : part.query? = some (.submitClaim summary)) :
    ∃ rotation retry, part = .rotation (.submitting rotation retry) ∧ rotation.summary = summary := by
  rcases part with _ | phase | phase
  · cases asks
  · cases phase with
    | entering share => cases asks
    | submitting rotation retry =>
        cases retry <;> cases asks
        exact ⟨rotation, _, rfl, rfl⟩
  · rcases phase with _ | _ | ⟨_, watch⟩ | ⟨_, retry⟩ | ⟨_, _, proving⟩ | ⟨_, _, _, retry⟩ |
      ⟨_, _, _, watch⟩ | _
    · cases asks
    · cases asks
    · cases watch <;> cases asks
    · cases retry <;> cases asks
    · cases proving <;> cases asks
    · cases retry <;> cases asks
    · cases watch <;> cases asks
    · cases asks

/-- A proof is shown to the contract by the audit that has made it. -/
theorem Part.of_query?_eq_verifyClaim {part : Part} {proof : VerificationProof}
    (asks : part.query? = some (.verifyClaim proof)) :
    ∃ target index retry, part = .audit (.submitting target index proof retry) := by
  rcases part with _ | phase | phase
  · cases asks
  · cases phase with
    | entering share => cases asks
    | submitting rotation retry => cases retry <;> cases asks
  · rcases phase with _ | _ | ⟨_, watch⟩ | ⟨_, retry⟩ | ⟨_, _, proving⟩ | ⟨target, index, _, retry⟩ |
      ⟨_, _, _, watch⟩ | _
    · cases asks
    · cases asks
    · cases watch <;> cases asks
    · cases retry <;> cases asks
    · cases proving <;> cases asks
    · cases retry <;> cases asks
      exact ⟨target, index, _, rfl⟩
    · cases watch <;> cases asks
    · cases asks

variable {settings : LedgerSettings} {ledger after : Ledger} {now : Instant}
  {part next : Part} {exchange : Option (Exchange pool)}

/-- The steps of all activities: part, exchange, ledger after the step, and next part. -/
inductive Part.Step (settings : LedgerSettings) (ledger : Ledger) :
    Part → Option (Exchange pool) → Ledger → Part → Prop where
  | rest : Step settings ledger .idle none ledger .idle
  | begin : Step settings ledger .idle none ledger (.rotation (.entering none))
  | rotation {phase next : Rotation.Phase} {exchange : Option (Exchange pool)} {after : Ledger}
      (step : Rotation.Step settings ledger phase exchange after (.inl next)) :
      Step settings ledger (.rotation phase) exchange after (.rotation next)
  | rotated {phase : Rotation.Phase} {exchange : Option (Exchange pool)} {after : Ledger}
      {outcome : Except Error Rotation.Outcome} {next : Part}
      (step : Rotation.Step settings ledger phase exchange after (.inr outcome))
      (goesOn : next = .idle ∨ next = .audit .entering) :
      Step settings ledger (.rotation phase) exchange after next
  | audit {phase next : Audit.Phase} {exchange : Option (Exchange pool)} {after : Ledger}
      (step : Audit.Step settings ledger phase exchange after (.inl next)) :
      Step settings ledger (.audit phase) exchange after (.audit next)
  | audited {phase : Audit.Phase} {exchange : Option (Exchange pool)} {after : Ledger}
      {outcome : Except Error (Option Verification)}
      (step : Audit.Step settings ledger phase exchange after (.inr outcome)) :
      Step settings ledger (.audit phase) exchange after .idle

theorem partAfter_settle (ticker : Ticker) (error : Error) :
    partAfter ((Cycle.settle ticker error).map .cycling .ended) = .idle := by
  rw [Cycle.settle]
  split
  · rfl
  · split <;> rfl

/-- The steps together with what comes to its end. -/
inductive Part.Course (settings : LedgerSettings) (ledger : Ledger) :
    Part → Option (Exchange pool) → Ledger → Part → Option Ended → Prop where
  | idle {next : Part} (round : next = .idle ∨ next = .rotation (.entering none)) :
      Course settings ledger .idle none ledger next none
  | rotation {phase next : Rotation.Phase} {exchange : Option (Exchange pool)} {after : Ledger}
      (step : Rotation.Step settings ledger phase exchange after (.inl next)) :
      Course settings ledger (.rotation phase) exchange after (.rotation next) none
  | rotated {phase : Rotation.Phase} {exchange : Option (Exchange pool)} {after : Ledger}
      {outcome : Except Error Rotation.Outcome} {next : Part}
      (step : Rotation.Step settings ledger phase exchange after (.inr outcome))
      (goesOn : next = .idle ∨ next = .audit .entering) :
      Course settings ledger (.rotation phase) exchange after next (some (.rotated outcome))
  | audit {phase next : Audit.Phase} {exchange : Option (Exchange pool)} {after : Ledger}
      (step : Audit.Step settings ledger phase exchange after (.inl next)) :
      Course settings ledger (.audit phase) exchange after (.audit next) none
  | audited {phase : Audit.Phase} {exchange : Option (Exchange pool)} {after : Ledger}
      {outcome : Except Error (Option Verification)}
      (step : Audit.Step settings ledger phase exchange after (.inr outcome)) :
      Course settings ledger (.audit phase) exchange after .idle (some (.audited outcome))

theorem Part.Course.step {ended : Option Ended}
    (course : Part.Course settings ledger part exchange after next ended) :
    Part.Step settings ledger part exchange after next := by
  cases course with
  | idle round =>
      rcases round with rfl | rfl
      · exact .rest
      · exact .begin
  | rotation step => exact .rotation step
  | rotated step goesOn => exact .rotated step goesOn
  | audit step => exact .audit step
  | audited step => exact .audited step

theorem Part.Course.of_rotated {outcome : Except Error Rotation.Outcome}
    (course : Part.Course settings ledger part exchange after next (some (.rotated outcome))) :
    ∃ phase, part = .rotation phase ∧
      Rotation.Step settings ledger phase exchange after (.inr outcome) := by
  cases course with
  | rotated step goesOn => exact ⟨_, rfl, step⟩

theorem Part.Course.of_audited {outcome : Except Error (Option Verification)}
    (course : Part.Course settings ledger part exchange after next (some (.audited outcome))) :
    ∃ phase, part = .audit phase ∧ Audit.Step settings ledger phase exchange after (.inr outcome) := by
  cases course with
  | audited step => exact ⟨_, rfl, step⟩

theorem resume_course (phase : Phase) (reply : (await phase).Reply) :
    Part.Course settings ledger phase.part ((await phase).exchange? reply)
      (resume settings ledger now phase reply).1
      (partAfter (resume settings ledger now phase reply).2)
      (ended? settings ledger now phase reply) := by
  cases phase with
  | rotating phase =>
      have step : Rotation.Step settings ledger phase _ _ _ := Rotation.resume_step phase reply
      simp only [resume, ended?]
      revert step
      generalize Rotation.resume settings ledger phase reply = result
      obtain ⟨after, next | outcome⟩ := result
      · exact fun step => .rotation step
      · exact fun step => .rotated step (.inl rfl)
  | auditing phase =>
      have step : Audit.Step settings ledger phase _ (Audit.resume settings ledger now phase reply).1 _ :=
        Audit.resume_step phase reply
      simp only [resume, ended?]
      revert step
      generalize Audit.resume settings ledger now phase reply = result
      obtain ⟨after, next | outcome⟩ := result
      · exact fun step => .audit step
      · exact fun step => .audited step
  | cycling phase =>
      cases phase with
      | waiting ticker =>
          cases reply with
          | due => exact .idle (.inr rfl)
          | cancelled => exact .idle (.inl rfl)
      | rotating ticker phase =>
          have step : Rotation.Step settings ledger phase _ _ _ := Rotation.resume_step phase reply
          simp only [resume, Cycle.resume, ended?]
          revert step
          generalize Rotation.resume settings ledger phase reply = result
          obtain ⟨after, next | error | outcome⟩ := result
          · exact fun step => .rotation step
          · exact fun step => .rotated step (.inl (partAfter_settle ticker error))
          · exact fun step => .rotated step (.inr rfl)
      | auditing ticker phase =>
          have step : Audit.Step settings ledger phase _
              (Audit.resume settings ledger now phase reply).1 _ := Audit.resume_step phase reply
          simp only [resume, Cycle.resume, ended?]
          revert step
          generalize Audit.resume settings ledger now phase reply = result
          obtain ⟨after, next | error | outcome⟩ := result
          · exact fun step => .audit step
          · intro step
            rw [partAfter_settle]
            exact .audited step
          · exact fun step => .audited step

theorem resume_step (phase : Phase) (reply : (await phase).Reply) :
    Part.Step settings ledger phase.part ((await phase).exchange? reply)
      (resume settings ledger now phase reply).1
      (partAfter (resume settings ledger now phase reply).2) :=
  (resume_course phase reply).step

/-! ### The program -/

namespace Part

/-- Submitting is done by a holder of the ledger, who has waited for it. -/
theorem held_rotation (phase : Rotation.Phase) :
    (∀ lock ∈ (rotation phase).held, lock = .ledger) ∧
      (.ledger ∈ (rotation phase).held ∨ .ledger ∈ (rotation phase).locks) := by
  cases phase with
  | entering share => simp [held, locks, await?, Rotation.await, Await.locks]
  | submitting rotation retry => simp [held]

/-- Auditing is done by a holder of the right to audit, who has waited for it. -/
theorem held_audit (phase : Audit.Phase) :
    (∀ lock ∈ (audit phase).held, lock = .audit) ∧
      (.audit ∈ (audit phase).held ∨ .audit ∈ (audit phase).locks) := by
  cases phase with
  | entering => simp [held, locks, await?, Audit.await, Await.locks]
  | _ => simp [held]

/-- A lock is held after a step only if it has been held before or was taken with the step. -/
theorem Step.held (step : Step settings ledger part exchange after next) :
    ∀ lock ∈ next.held, lock ∈ part.held ∨ lock ∈ part.locks := by
  intro lock member
  cases step with
  | rest => exact .inl member
  | begin => cases member
  | rotation step =>
      rw [(held_rotation _).1 lock member]
      exact (held_rotation _).2
  | rotated step goesOn => rcases goesOn with rfl | rfl <;> cases member
  | audit step =>
      rw [(held_audit _).1 lock member]
      exact (held_audit _).2
  | audited step => cases member

end Part

/-- A ledger that is used by many at once. Only the cycles heed the order to stop. -/
abbrev program (settings : LedgerSettings) : Program pool Ledger where
  Request := Request
  Phase := Phase
  Result := Result
  initial := fresh
  begin request _ now := .inl (begin settings request now)
  activity := ⟨await, resume settings⟩
  held phase := phase.part.held
  heedsStop
    | .cycle => true
    | _ => false
  held_begin := by
    intro request data now phase begun
    cases begun
    cases request <;> rfl
  held_resume := by
    intro data now phase reply next resumed lock member
    have step : Part.Step settings data phase.part _ _ (partAfter (.inl next)) :=
      resumed ▸ resume_step phase reply
    rw [locks_await]
    exact step.held lock member

/-! ### A claim of one share -/

/-- The way of the only share of the first claim to the contract. -/
def onlyRotation (share : Share) : Rotation :=
  ⟨0, ⟨[share]⟩, ⟨1, share.difficulty, share.counter, share.counter, share.hash⟩⟩

/-- The ledger after the contract has accepted the claim. -/
def onlySubmitted (share : Share) (tx : Hash256) : Ledger :=
  (fresh.add share).1.accept (onlyRotation share) tx

/-- The request to add the share, after that. -/
def onlyCall (settings : LedgerSettings) (share : Share) (tx : Hash256) : (program settings).Call :=
  ⟨.add share, .inr (.rotated (.ok (.kept (some ⟨0, tx, (onlyRotation share).summary⟩))))⟩

theorem idle_onlyCall (settings : LedgerSettings) (share : Share) (tx : Hash256) :
    ∀ call ∈ [onlyCall settings share tx], call.held = [] := by
  intro call member
  rw [List.mem_singleton.1 member]
  rfl

theorem look_onlyRotation (small : settings.shareThreshold ≤ 1) (share : Share) :
    Rotation.look settings (fresh.add share).1 =
      .inl (.submitting (onlyRotation share) (Retry.start settings.retry)) := by
  have sorted : Claim.sorted ⟨[share]⟩ = ⟨[share]⟩ :=
    Claim.sorted_eq_self (List.pairwise_singleton _ _)
  have summarized : Claim.summary ⟨[share]⟩ = .ok (onlyRotation share).summary := by
    rw [Claim.summary, sorted]
    rfl
  have found : (fresh.add share).1.currentSlot = .ok ⟨⟨[share]⟩, .collecting⟩ := rfl
  have large : ¬Claim.size ⟨[share]⟩ < settings.shareThreshold := Nat.not_lt.2 small
  have due : (fresh.add share).1.due settings.shareThreshold =
      .ok (some (onlyRotation share)) := by
    simp only [Ledger.due, found, bind, Except.bind, if_neg large, sorted, summarized]
    rfl
  rw [Rotation.look, due]

/-- The request to add the share while the contract is asked to accept its claim. -/
def onlySubmitting (settings : LedgerSettings) (share : Share) : (program settings).Call :=
  ⟨.add share, .inl (.rotating (.submitting (onlyRotation share) (Retry.start settings.retry)))⟩

theorem reachable_onlySubmitting (settings : LedgerSettings) (small : settings.shareThreshold ≤ 1)
    (share : Share) :
    Program.Reachable ⟨(fresh.add share).1, [onlySubmitting settings share], false⟩ := by
  have arrived := Program.Run.start.step
    (.arrive (⟨fresh, [], false⟩ : (program settings).System) (.add share) 0)
  have entered : resume settings fresh 0 (.rotating (.entering (some share))) () =
      ((fresh.add share).1,
        (Rotation.look settings (fresh.add share).1).map .rotating .rotated) := rfl
  rw [look_onlyRotation small] at entered
  exact ⟨_, arrived.move_last (fun _ member => nomatch member) 0 ()
    (fun _ _ => List.not_mem_nil) id entered⟩

/-- If one share is enough, its claim can be submitted at once. -/
theorem reachable_onlySubmitted (settings : LedgerSettings) (small : settings.shareThreshold ≤ 1)
    (share : Share) (tx : Hash256) :
    Program.Reachable ⟨onlySubmitted share tx, [onlyCall settings share tx], false⟩ := by
  obtain ⟨trace, run⟩ := reachable_onlySubmitting settings small share
  have submitting : Program.Run trace
      ⟨(fresh.add share).1, [] ++ [onlySubmitting settings share], false⟩ := run
  exact ⟨_, submitting.move_last (fun _ member => nomatch member) 0 (.ok tx)
    (Await.free_of_lockless rfl) id rfl⟩

/-- A share with nothing but zeros. -/
def plainShare : Share where
  header :=
    { parentHash := .zero 32
      uncleHash := .zero 32
      coinbase := .zero 20
      stateRoot := .zero 32
      transactionRoot := .zero 32
      receiptRoot := .zero 32
      bloom := .zero 256
      difficulty := 0
      number := 0
      gasLimit := 0
      gasUsed := 0
      timestamp := 0
      extraData := [] }
  nonce := 0
  mixDigest := .zero 32
  difficulty := 0
  state := .validShare

/-- Every share is submitted at once, and the first share of a claim is audited. -/
def promptSettings : LedgerSettings where
  shareThreshold := 1
  auditPolicy := .previous
  auditIndex := some 0
  datasets := ⟨"", DatasetLocator.defaultRevision⟩
  submitInterval := Duration.ofSeconds 60
  confirmation := ⟨0, none⟩
  retry := .once

end MiningPool.Ledger
