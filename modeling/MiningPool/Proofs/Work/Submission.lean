/-
Module: MiningPool.Proofs.Work.Submission
Purpose: how a solution fares, from its classification to the answer.
Main exports: Pool.Happened, Pool.Classifies, Pool.Appends, Pool.Repeats, Pool.Fares, Pool.Fares.step,
  Pool.fares_of_course
-/
import MiningPool.Proofs.Effect.Course
import MiningPool.Proofs.Ledger.Operation
import MiningPool.Proofs.Work.Invariant

/-!
A solution for known work is classified in its first step. What happens to a full block or to a valid share
after that is looked at in terms of what the steps have done to the ledger and of what others have answered,
not of the phases that the call has gone through.
-/

namespace MiningPool.Pool

variable {settings : LedgerSettings} {shareDifficulty : Nat}
  {move : (program settings shareDifficulty).Move}
  {moves : List (program settings shareDifficulty).Move}
  {share kept : Share} {powHash : Hash256}

/-! ### What can happen -/

/-- One of the steps is of a kind. -/
def Happened (kind : (program settings shareDifficulty).Move → Prop)
    (moves : List (program settings shareDifficulty).Move) : Prop :=
  ∃ move ∈ moves, kind move

@[simp] theorem not_happened_nil (kind : (program settings shareDifficulty).Move → Prop) :
    ¬Happened kind [] := by
  rintro ⟨_, member, _⟩
  cases member

@[simp] theorem happened_concat {kind : (program settings shareDifficulty).Move → Prop} :
    Happened kind (moves ++ [move]) ↔ Happened kind moves ∨ kind move := by
  simp [Happened, or_and_right, exists_or]

theorem Happened.mono {kind : (program settings shareDifficulty).Move → Prop}
    {more : List (program settings shareDifficulty).Move} (happened : Happened kind moves)
    (inside : moves ⊆ more) : Happened kind more := by
  obtain ⟨move, member, isKind⟩ := happened
  exact ⟨move, inside member, isKind⟩

/-- The proof-of-work scheme has said what a share is worth. -/
def Classifies (share : Share) (state : SolutionState)
    (move : (program settings shareDifficulty).Move) : Prop :=
  move.exchange? = some ⟨PoolQuery.solutionState share, .ok state⟩

/-- The share has come into the open claim. -/
def Appends (share : Share) (move : (program settings shareDifficulty).Move) : Prop :=
  Ledger.Extends share move.data.ledger move.after.ledger

/-- The share was about to be kept, but the open claim holds one with its counter. -/
def Repeats (share : Share) (move : (program settings shareDifficulty).Move) : Prop :=
  move.phase = .serving (.keeping (.entering (some share))) ∧
    share.counter ∈ move.data.ledger.openClaim.counters

/-- The claim of a share could not be submitted. -/
def Fails (error : Error) (move : (program settings shareDifficulty).Move) : Prop :=
  rotatedBy? move = some (.error error)

/-- The node has said whether it accepts a full block. -/
def Forwards (nonce : BlockNonce) (powHash mixDigest : Hash256) (verdict : Except Error Bool)
    (move : (program settings shareDifficulty).Move) : Prop :=
  move.exchange? = some ⟨PoolQuery.submitWork nonce powHash mixDigest, verdict⟩

/-- This share has been classified and no other one, and only in one way. -/
def Decided (share : Share) (state : SolutionState)
    (moves : List (program settings shareDifficulty).Move) : Prop :=
  ∀ other worth, Happened (Classifies other worth) moves ↔ other = share ∧ worth = state

/-! ### The steps of a submission -/

/-- What a miner is told of a share that has gone to the current claim. -/
def told : Except Error Rotation.Outcome → Except Error Service.Answer
  | .ok .duplicate => .ok (.verdict false)
  | .ok (.kept _) => .ok (.verdict true)
  | .error error => if error.fatal then .error error else .ok (.verdict true)

theorem settle_answer (state : PoolState) (outcome : Except Error Rotation.Outcome) :
    (Service.settle state outcome).2 = told outcome := by
  rcases outcome with error | _ | submission
  · simp only [Service.settle, told]
    split <;> rfl
  · rfl
  · rfl

/-- Where a share that is being kept goes. -/
def keptStage (outcome : Rotation.Phase ⊕ Except Error Rotation.Outcome) : Phase ⊕ Result :=
  outcome.map (fun next => .serving (.keeping next)) fun result => .answered (told result)

theorem classifying_step (isPhase : move.phase = .serving (.classifying share powHash)) :
    ∃ outcome : Except Error SolutionState,
      move.exchange? = some ⟨PoolQuery.solutionState share, outcome⟩ ∧
      move.after = move.data ∧ rotatedBy? move = none ∧
      move.next.stage = (Service.classified share powHash outcome).map .serving .answered := by
  obtain ⟨caller, request, _, data, now, reply⟩ := move
  cases isPhase
  exact ⟨reply, rfl, rfl, rfl, rfl⟩

theorem forwarding_step (isPhase : move.phase = .serving (.forwarding share powHash)) :
    ∃ verdict : Except Error Bool,
      move.exchange? = some ⟨PoolQuery.submitWork share.nonce powHash share.mixDigest, verdict⟩ ∧
      move.after = (Service.forwarded move.data powHash verdict).1 ∧ rotatedBy? move = none ∧
      move.next.stage = .inr (.answered (verdict.map .verdict)) := by
  obtain ⟨caller, request, _, data, now, reply⟩ := move
  cases isPhase
  have answer := Service.forwarded_answer data powHash reply
  exact ⟨reply, rfl, rfl, rfl, congrArg (fun outcome => Sum.inr (Result.answered outcome)) answer⟩

theorem keeping_step {phase : Rotation.Phase} (isPhase : move.phase = .serving (.keeping phase)) :
    ∃ outcome, Rotation.Step settings move.data.ledger phase move.exchange? move.after.ledger outcome ∧
      move.after.works = move.data.works ∧ rotatedBy? move = outcome.getRight? ∧
      move.next.stage = keptStage outcome := by
  obtain ⟨next, step, isNext⟩ := service_step isPhase
  generalize move.exchange? = exchange, move.after = after, rotatedBy? move = outcome? at step ⊢
  rw [isNext]
  cases step with
  | rotation step => exact ⟨_, step, rfl, rfl, rfl⟩
  | rotated step =>
      refine ⟨_, by rwa [Service.settle_ledger], by rw [Service.settle_works], rfl, ?_⟩
      rw [settle_answer]
      rfl

theorem classifies_iff {outcome : Except Error SolutionState} {other : Share} {state : SolutionState}
    (exchange : move.exchange? = some ⟨PoolQuery.solutionState share, outcome⟩) :
    Classifies other state move ↔ other = share ∧ outcome = .ok state := by
  rw [Classifies, exchange]
  constructor
  · rintro ⟨⟩
    exact ⟨rfl, rfl⟩
  · rintro ⟨rfl, rfl⟩
    rfl

theorem forwards_iff {nonce : BlockNonce} {mixDigest : Hash256} {verdict other : Except Error Bool}
    (exchange : move.exchange? = some ⟨PoolQuery.submitWork nonce powHash mixDigest, verdict⟩) :
    Forwards nonce powHash mixDigest other move ↔ other = verdict := by
  rw [Forwards, exchange]
  constructor
  · rintro ⟨⟩
    rfl
  · rintro rfl
    rfl

theorem not_classifies_of_keeping {phase : Rotation.Phase}
    (isPhase : move.phase = .serving (.keeping phase)) (other : Share) (state : SolutionState) :
    ¬Classifies other state move := by
  obtain ⟨outcome, step, _⟩ := keeping_step isPhase
  intro classifies
  obtain ⟨summary, answer, same⟩ := step.exchange _ classifies
  cases same

theorem not_forwards_of_keeping {phase : Rotation.Phase}
    (isPhase : move.phase = .serving (.keeping phase)) (nonce : BlockNonce) (mixDigest : Hash256)
    (verdict : Except Error Bool) : ¬Forwards nonce powHash mixDigest verdict move := by
  obtain ⟨outcome, step, _⟩ := keeping_step isPhase
  intro forwards
  obtain ⟨summary, answer, same⟩ := step.exchange _ forwards
  cases same

/-- A share that has come into the claim has changed it. -/
theorem not_appends_of_eq (same : move.after.ledger = move.data.ledger) : ¬Appends share move := by
  intro appends
  have inside : share.counter ∈ move.after.ledger.counters := by simp [appends.counters]
  exact appends.new (same ▸ inside)

theorem Decided.concat {state : SolutionState} (decided : Decided share state moves)
    (quiet : ∀ other worth, ¬Classifies other worth move) : Decided share state (moves ++ [move]) := by
  intro other worth
  rw [happened_concat, decided, or_iff_left (quiet other worth)]

theorem Decided.eq {other : Share} {one two : SolutionState} (first : Decided share one moves)
    (second : Happened (Classifies other two) moves) : two = one :=
  ((first other two).1 second).2

/-! ### How a valid share fares -/

/-- What has happened to a valid share when its call has come to a stage. -/
inductive Keeps (kept : Share) (moves : List (program settings shareDifficulty).Move) :
    Phase ⊕ Result → Prop where
  | entering (untaken : ¬Happened (Appends kept) moves) (unrepeated : ¬Happened (Repeats kept) moves)
      (unfailed : ∀ error, ¬Happened (Fails error) moves) :
      Keeps kept moves (.inl (.serving (.keeping (.entering (some kept)))))
  | submitting {rotation : Rotation} {retry : Retry.Phase} (appended : Happened (Appends kept) moves)
      (unrepeated : ¬Happened (Repeats kept) moves)
      (unfailed : ∀ error, ¬Happened (Fails error) moves) :
      Keeps kept moves (.inl (.serving (.keeping (.submitting rotation retry))))
  | accepted (appended : Happened (Appends kept) moves) (unrepeated : ¬Happened (Repeats kept) moves)
      (forgiven : ∀ error, Happened (Fails error) moves → error.fatal = false) :
      Keeps kept moves (.inr (.answered (.ok (.verdict true))))
  | refused (untaken : ¬Happened (Appends kept) moves) (repeated : Happened (Repeats kept) moves)
      (unfailed : ∀ error, ¬Happened (Fails error) moves) :
      Keeps kept moves (.inr (.answered (.ok (.verdict false))))
  | failed {error : Error} (unrepeated : ¬Happened (Repeats kept) moves) (fatal : error.fatal = true)
      (fails : ∀ other, Happened (Fails other) moves ↔ other = error) :
      Keeps kept moves (.inr (.answered (.error error)))

namespace Keeps

theorem phase_eq {phase : Phase} (keeps : Keeps kept moves (.inl phase)) :
    ∃ rotation, phase = .serving (.keeping rotation) := by
  cases keeps with
  | entering untaken unrepeated unfailed => exact ⟨_, rfl⟩
  | submitting appended unrepeated unfailed => exact ⟨_, rfl⟩

/-- What has been kept stays so, and its claim goes on being submitted or not. -/
theorem of_outcome {outcome : Rotation.Phase ⊕ Except Error Rotation.Outcome}
    (appended : Happened (Appends kept) moves) (unrepeated : ¬Happened (Repeats kept) moves)
    (fails : ∀ error, Happened (Fails error) moves ↔ outcome = .inr (.error error))
    (settled : outcome ≠ .inr (.ok .duplicate))
    (goesOn : ∀ next, outcome = .inl next → ∃ rotation retry, next = .submitting rotation retry) :
    Keeps kept moves (keptStage outcome) := by
  rcases outcome with next | error | _ | submission
  · obtain ⟨rotation, retry, rfl⟩ := goesOn next rfl
    apply submitting appended unrepeated
    simp [fails]
  · cases fatal : error.fatal with
    | true =>
        have same : keptStage (.inr (.error error)) = .inr (.answered (.error error)) := by
          simp [keptStage, told, fatal]
        rw [same]
        apply failed unrepeated fatal
        simp [fails, eq_comm]
    | false =>
        have same : keptStage (.inr (.error error)) = .inr (.answered (.ok (.verdict true))) := by
          simp [keptStage, told, fatal]
        rw [same]
        apply accepted appended unrepeated
        intro other happened
        cases (fails other).1 happened
        exact fatal
  · exact absurd rfl settled
  · apply accepted appended unrepeated
    simp [fails]

/-- The first failure is the one that the step reports. -/
theorem fails_concat {outcome : Rotation.Phase ⊕ Except Error Rotation.Outcome}
    (unfailed : ∀ error, ¬Happened (Fails error) moves) (rotated : rotatedBy? move = outcome.getRight?)
    (error : Error) :
    Happened (Fails error) (moves ++ [move]) ↔ outcome = .inr (.error error) := by
  rw [happened_concat, or_iff_right (unfailed error), Fails, rotated]
  cases outcome <;> simp

theorem of_entering (wellFormed : move.data.ledger.WellFormed settings.shareThreshold)
    (untaken : ¬Happened (Appends kept) moves) (unrepeated : ¬Happened (Repeats kept) moves)
    (unfailed : ∀ error, ¬Happened (Fails error) moves)
    (isPhase : move.phase = .serving (.keeping (.entering (some kept)))) :
    Keeps kept (moves ++ [move]) move.next.stage := by
  obtain ⟨outcome, step, _, rotated, isNext⟩ := keeping_step isPhase
  have fails := fails_concat unfailed rotated
  rw [isNext]
  generalize isAfter : move.after.ledger = after at step
  generalize move.exchange? = exchange at step
  cases step with
  | duplicate known =>
      apply refused
      · rw [happened_concat]
        rintro (before | appends)
        · exact untaken before
        · exact not_appends_of_eq isAfter appends
      · exact happened_concat.2 (.inr ⟨isPhase, (wellFormed.counters _).1 known⟩)
      · simp [fails]
  | add new added looked =>
      have appends : Appends kept move := by
        rw [Appends, isAfter]
        exact wellFormed.extends_add new
      apply of_outcome (happened_concat.2 (.inr appends)) _ fails
      · rw [← looked]
        exact Rotation.look_ne_duplicate
      · intro next begun
        obtain ⟨rotation, _, isNext⟩ := Rotation.look_eq_inl (looked.trans begun)
        exact ⟨rotation, _, isNext⟩
      · rw [happened_concat]
        rintro (before | repeats)
        · exact unrepeated before
        · exact new ((wellFormed.counters _).2 repeats.2)
  | lose new lost =>
      rw [wellFormed.add_eq] at lost
      cases lost

theorem of_submitting {rotation : Rotation} {retry : Retry.Phase}
    (appended : Happened (Appends kept) moves) (unrepeated : ¬Happened (Repeats kept) moves)
    (unfailed : ∀ error, ¬Happened (Fails error) moves)
    (isPhase : move.phase = .serving (.keeping (.submitting rotation retry))) :
    Keeps kept (moves ++ [move]) move.next.stage := by
  obtain ⟨outcome, step, _, rotated, isNext⟩ := keeping_step isPhase
  rw [isNext]
  apply of_outcome (happened_concat.2 (.inl appended)) _ (fails_concat unfailed rotated)
  · generalize move.after.ledger = after, move.exchange? = exchange at step
    cases step <;> exact fun same => nomatch same
  · generalize move.after.ledger = after, move.exchange? = exchange at step
    intro next goesOn
    cases step with
    | wait failed =>
        cases goesOn
        exact ⟨_, _, rfl⟩
    | refuse error => cases goesOn
    | accept tx => cases goesOn
  · rw [happened_concat]
    rintro (before | ⟨entering, _⟩)
    · exact unrepeated before
    · rw [isPhase] at entering
      cases entering

theorem step (wellFormed : move.data.ledger.WellFormed settings.shareThreshold)
    (keeps : Keeps kept moves (.inl move.phase)) : Keeps kept (moves ++ [move]) move.next.stage := by
  generalize isPhase : (Sum.inl move.phase : Phase ⊕ Result) = stage at keeps
  cases keeps with
  | entering untaken unrepeated unfailed =>
      exact of_entering wellFormed untaken unrepeated unfailed (Sum.inl.inj isPhase)
  | submitting appended unrepeated unfailed =>
      exact of_submitting appended unrepeated unfailed (Sum.inl.inj isPhase)
  | _ => cases isPhase

variable {outcome : Except Error Service.Answer}

theorem eq_true_iff (keeps : Keeps kept moves (.inr (.answered outcome))) :
    outcome = .ok (.verdict true) ↔ Happened (Appends kept) moves ∧
      ∀ error, Happened (Fails error) moves → error.fatal = false := by
  cases keeps with
  | accepted appended unrepeated forgiven => simpa [appended] using forgiven
  | refused untaken repeated unfailed => simp [untaken]
  | failed unrepeated fatal fails => simp [fails, fatal]

theorem eq_false_iff (keeps : Keeps kept moves (.inr (.answered outcome))) :
    outcome = .ok (.verdict false) ↔ Happened (Repeats kept) moves := by
  cases keeps with
  | accepted appended unrepeated forgiven => simp [unrepeated]
  | refused untaken repeated unfailed => simp [repeated]
  | failed unrepeated fatal fails => simp [unrepeated]

theorem eq_error_iff (keeps : Keeps kept moves (.inr (.answered outcome))) (error : Error) :
    outcome = .error error ↔ Happened (Fails error) moves ∧ error.fatal = true := by
  cases keeps with
  | accepted appended unrepeated forgiven =>
      simp only [reduceCtorEq, false_iff, not_and, Bool.not_eq_true]
      exact forgiven error
  | refused untaken repeated unfailed => simp [unfailed]
  | failed unrepeated fatal fails =>
      rw [fails]
      constructor
      · rintro ⟨⟩
        exact ⟨rfl, fatal⟩
      · rintro ⟨rfl, _⟩
        rfl

/-- A fatal failure is answered at once. -/
theorem stage_eq_of_fatal {stage : Phase ⊕ Result} (keeps : Keeps kept moves stage) {error : Error}
    (happened : Happened (Fails error) moves) (fatal : error.fatal = true) :
    stage = .inr (.answered (.error error)) := by
  cases keeps with
  | entering untaken unrepeated unfailed => exact absurd happened (unfailed error)
  | submitting appended unrepeated unfailed => exact absurd happened (unfailed error)
  | accepted appended unrepeated forgiven =>
      rw [forgiven error happened] at fatal
      cases fatal
  | refused untaken repeated unfailed => exact absurd happened (unfailed error)
  | failed unrepeated fatal fails => rw [(fails error).1 happened]

end Keeps

/-! ### How a solution fares -/

/-- What has happened to a solution for known work when its call has come to a stage. -/
inductive Fares (share : Share) (powHash : Hash256)
    (moves : List (program settings shareDifficulty).Move) : Phase ⊕ Result → Prop where
  | classifying (isNew : moves = []) :
      Fares share powHash moves (.inl (.serving (.classifying share powHash)))
  | undecided (error : Error) (undecided : ∀ other worth, ¬Happened (Classifies other worth) moves) :
      Fares share powHash moves (.inr (.answered (.error error)))
  | invalid (decided : Decided share .invalid moves) :
      Fares share powHash moves (.inr (.answered (.ok (.verdict false))))
  | forwarding (decided : Decided share .fullBlock moves)
      (unsaid : ∀ verdict, ¬Happened (Forwards share.nonce powHash share.mixDigest verdict) moves) :
      Fares share powHash moves
        (.inl (.serving (.forwarding { share with state := .fullBlock } powHash)))
  | forwarded {verdict : Except Error Bool} (decided : Decided share .fullBlock moves)
      (said : ∀ other, Happened (Forwards share.nonce powHash share.mixDigest other) moves ↔
        other = verdict) :
      Fares share powHash moves (.inr (.answered (verdict.map .verdict)))
  | kept {stage : Phase ⊕ Result} (decided : Decided share .validShare moves)
      (keeps : Keeps { share with state := .validShare } moves stage) : Fares share powHash moves stage

namespace Fares

theorem of_classifying (isPhase : move.phase = .serving (.classifying share powHash)) :
    Fares share powHash [move] move.next.stage := by
  obtain ⟨outcome, exchange, after, rotated, isNext⟩ := classifying_step isPhase
  have answered : ∀ other worth, Happened (Classifies other worth) [move] ↔
      other = share ∧ outcome = .ok worth := by
    intro other worth
    rw [← classifies_iff exchange]
    simp [Happened]
  rw [isNext]
  cases outcome with
  | error error =>
      apply undecided
      simp [answered]
  | ok state =>
      have decided : Decided share state [move] := by
        intro other worth
        rw [answered, Except.ok.injEq, eq_comm (a := state)]
      cases state with
      | invalid => exact invalid decided
      | validShare =>
          have untaken : ¬Appends { share with state := .validShare } move :=
            not_appends_of_eq (congrArg PoolState.ledger after)
          apply kept decided
          apply Keeps.entering
          · simpa [Happened] using untaken
          · simp [Happened, Repeats, isPhase]
          · simp [Happened, Fails, rotated]
      | fullBlock =>
          apply forwarding decided
          rintro verdict ⟨_, member, forwards⟩
          rw [List.mem_singleton.1 member, Forwards, exchange] at forwards
          cases forwards

theorem of_forwarding (decided : Decided share .fullBlock moves)
    (unsaid : ∀ verdict, ¬Happened (Forwards share.nonce powHash share.mixDigest verdict) moves)
    (isPhase : move.phase = .serving (.forwarding { share with state := .fullBlock } powHash)) :
    Fares share powHash (moves ++ [move]) move.next.stage := by
  obtain ⟨verdict, exchange, _, _, isNext⟩ := forwarding_step isPhase
  rw [isNext]
  apply forwarded
  · apply decided.concat
    intro other worth classifies
    rw [Classifies, exchange] at classifies
    cases classifies
  · intro other
    rw [happened_concat, or_iff_right (unsaid other)]
    exact forwards_iff exchange

/-- One more step of the call. -/
theorem step (wellFormed : move.data.ledger.WellFormed settings.shareThreshold)
    (fares : Fares share powHash moves (.inl move.phase)) :
    Fares share powHash (moves ++ [move]) move.next.stage := by
  generalize isPhase : (Sum.inl move.phase : Phase ⊕ Result) = stage at fares
  cases fares with
  | classifying isNew =>
      rw [isNew]
      exact of_classifying (Sum.inl.inj isPhase)
  | forwarding decided unsaid => exact of_forwarding decided unsaid (Sum.inl.inj isPhase)
  | kept decided keeps =>
      rw [← isPhase] at keeps
      obtain ⟨rotation, keeping⟩ := keeps.phase_eq
      exact kept (decided.concat (not_classifies_of_keeping keeping)) (keeps.step wellFormed)
  | _ => cases isPhase

theorem keeps_of_valid {stage : Phase ⊕ Result} {other : Share}
    (fares : Fares share powHash moves stage)
    (valid : Happened (Classifies other .validShare) moves) :
    Keeps { share with state := .validShare } moves stage := by
  cases fares with
  | classifying isNew => simp [isNew] at valid
  | undecided error undecided => exact absurd valid (undecided other .validShare)
  | invalid decided => cases decided.eq valid
  | forwarding decided unsaid => cases decided.eq valid
  | forwarded decided said => cases decided.eq valid
  | kept decided keeps => exact keeps

variable {outcome : Except Error Service.Answer}

theorem eq_of_invalid (fares : Fares share powHash moves (.inr (.answered outcome)))
    (classified : Happened (Classifies share .invalid) moves) : outcome = .ok (.verdict false) := by
  cases fares with
  | undecided error undecided => exact absurd classified (undecided share .invalid)
  | invalid decided => rfl
  | forwarded decided said => cases decided.eq classified
  | kept decided keeps => cases decided.eq classified

theorem eq_of_fullBlock (fares : Fares share powHash moves (.inr (.answered outcome)))
    (classified : Happened (Classifies share .fullBlock) moves) :
    ∃ verdict, (∀ other, Happened (Forwards share.nonce powHash share.mixDigest other) moves ↔
      other = verdict) ∧ outcome = verdict.map .verdict := by
  cases fares with
  | undecided error undecided => exact absurd classified (undecided share .fullBlock)
  | invalid decided => cases decided.eq classified
  | forwarded decided said => exact ⟨_, said, rfl⟩
  | kept decided keeps => cases decided.eq classified

end Fares

/-- How a solution for known work has fared, whatever has been done in between. -/
theorem fares_of_course {request : Request} {stage : Phase ⊕ Result}
    (course : @Program.Course pool PoolState (program settings shareDifficulty) request
      (.inl (.serving (.classifying share powHash))) moves stage)
    (wellFormed : ∀ move ∈ moves, move.data.ledger.WellFormed settings.shareThreshold) :
    Fares share powHash moves stage := by
  induction course with
  | start => exact .classifying rfl
  | step course own ih =>
      have before := ih fun move member => wellFormed move (List.mem_append_left _ member)
      exact before.step (wellFormed _ List.mem_concat_self)

end MiningPool.Pool
