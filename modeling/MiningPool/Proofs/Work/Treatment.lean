/-
Module: MiningPool.Proofs.Work.Treatment
Purpose: what a miner can rely on who hands in a solution.
Main exports: Pool.Treated, Pool.Served, Pool.served_of_run, Pool.stopped_iff_answered
-/
import MiningPool.Proofs.Work.Submission

/-!
The answer to a solution says what has become of it: whether a valid share has been kept, what the node has
said of a full block, and that the pool stops if the answer to a valid share is an error. Solutions that are
no valid shares leave the claims alone, and only a full block that the node accepts costs a work its place.
-/

namespace MiningPool.Pool

variable {settings : LedgerSettings} {shareDifficulty : Nat}
  {trace : List (program settings shareDifficulty).Event}
  {system : (program settings shareDifficulty).System}
  {move : (program settings shareDifficulty).Move}
  {moves : List (program settings shareDifficulty).Move}
  {share : Share} {powHash : Hash256}

/-- What has been done with a solution for known work by the steps of its call, up to a stage. -/
structure Treated (share : Share) (powHash : Hash256)
    (moves : List (program settings shareDifficulty).Move) (stage : Phase ⊕ Result) : Prop where
  /-- Only a valid share changes the claims. -/
  harmless : ¬Happened (Classifies share .validShare) moves →
    ∀ move ∈ moves, move.after.ledger = move.data.ledger
  invalid : Happened (Classifies share .invalid) moves →
    ∀ outcome, stage = .inr (.answered outcome) → outcome = .ok (.verdict false)
  accepted : Happened (Classifies share .validShare) moves →
    ∀ outcome, stage = .inr (.answered outcome) →
      (outcome = .ok (.verdict true) ↔
        Happened (Appends { share with state := .validShare }) moves ∧
          ∀ error, Happened (Fails error) moves → error.fatal = false)
  refused : Happened (Classifies share .validShare) moves →
    ∀ outcome, stage = .inr (.answered outcome) →
      (outcome = .ok (.verdict false) ↔
        Happened (Repeats { share with state := .validShare }) moves)
  failed : Happened (Classifies share .validShare) moves →
    ∀ outcome, stage = .inr (.answered outcome) →
      ∀ error, outcome = .error error ↔ Happened (Fails error) moves ∧ error.fatal = true
  forwarded : Happened (Classifies share .fullBlock) moves →
    ∀ outcome, stage = .inr (.answered outcome) →
      ∃ verdict, (∀ other, Happened (Forwards share.nonce powHash share.mixDigest other) moves ↔
        other = verdict) ∧ outcome = verdict.map .verdict
  /-- The work of a full block that the node accepts is forgotten. -/
  forgotten : ∀ move ∈ moves, Forwards share.nonce powHash share.mixDigest (.ok true) move →
    ∀ hash, move.after.works.get? hash = if hash = powHash then none else move.data.works.get? hash
  /-- No other step changes the works. -/
  remembered : ∀ move ∈ moves, ¬Forwards share.nonce powHash share.mixDigest (.ok true) move →
    move.after.works = move.data.works

/-! ### Single steps -/

namespace Fares

theorem ledger_eq (fares : Fares share powHash moves (.inl move.phase))
    (other : ¬Happened (Classifies share .validShare) moves) :
    move.after.ledger = move.data.ledger := by
  generalize isPhase : (Sum.inl move.phase : Phase ⊕ Result) = stage at fares
  cases fares with
  | classifying isNew =>
      obtain ⟨_, _, after, _⟩ := classifying_step (Sum.inl.inj isPhase)
      rw [after]
  | forwarding decided unsaid =>
      obtain ⟨verdict, _, after, _⟩ := forwarding_step (Sum.inl.inj isPhase)
      rw [after, Service.forwarded_ledger]
  | kept decided keeps => exact absurd ((decided _ _).2 ⟨rfl, rfl⟩) other
  | _ => cases isPhase

theorem works_get? (fares : Fares share powHash moves (.inl move.phase))
    (accepted : Forwards share.nonce powHash share.mixDigest (.ok true) move) (hash : Hash256) :
    move.after.works.get? hash = if hash = powHash then none else move.data.works.get? hash := by
  generalize isPhase : (Sum.inl move.phase : Phase ⊕ Result) = stage at fares
  cases fares with
  | classifying isNew =>
      obtain ⟨_, exchange, _⟩ := classifying_step (Sum.inl.inj isPhase)
      rw [Forwards, exchange] at accepted
      cases accepted
  | forwarding decided unsaid =>
      obtain ⟨verdict, exchange, after, _⟩ := forwarding_step (Sum.inl.inj isPhase)
      rw [after, ← (forwards_iff exchange).1 accepted]
      split
      · rename_i same
        rw [same]
        exact WorkPool.get?_erase_self _ _
      · rename_i different
        exact WorkPool.get?_erase_of_ne different _
  | kept decided keeps =>
      rw [← isPhase] at keeps
      obtain ⟨rotation, keeping⟩ := keeps.phase_eq
      exact absurd accepted (not_forwards_of_keeping keeping _ _ _)
  | _ => cases isPhase

theorem works_eq (fares : Fares share powHash moves (.inl move.phase))
    (declined : ¬Forwards share.nonce powHash share.mixDigest (.ok true) move) :
    move.after.works = move.data.works := by
  generalize isPhase : (Sum.inl move.phase : Phase ⊕ Result) = stage at fares
  cases fares with
  | classifying isNew =>
      obtain ⟨_, _, after, _⟩ := classifying_step (Sum.inl.inj isPhase)
      rw [after]
  | forwarding decided unsaid =>
      obtain ⟨verdict, exchange, after, _⟩ := forwarding_step (Sum.inl.inj isPhase)
      rw [after]
      apply Service.forwarded_works_of_ne
      intro accepted
      exact declined ((forwards_iff exchange).2 accepted.symm)
  | kept decided keeps =>
      rw [← isPhase] at keeps
      obtain ⟨rotation, keeping⟩ := keeps.phase_eq
      obtain ⟨_, _, works, _⟩ := keeping_step keeping
      exact works
  | _ => cases isPhase

/-- A step that settles what becomes of a share is one of a valid share. -/
theorem valid_of_rotated (fares : Fares share powHash moves (.inl move.phase))
    {outcome : Except Error Rotation.Outcome} (rotated : rotatedBy? move = some outcome) :
    Happened (Classifies share .validShare) moves := by
  generalize isPhase : (Sum.inl move.phase : Phase ⊕ Result) = stage at fares
  cases fares with
  | classifying isNew =>
      obtain ⟨_, _, _, unsettled, _⟩ := classifying_step (Sum.inl.inj isPhase)
      rw [unsettled] at rotated
      cases rotated
  | forwarding decided unsaid =>
      obtain ⟨_, _, _, unsettled, _⟩ := forwarding_step (Sum.inl.inj isPhase)
      rw [unsettled] at rotated
      cases rotated
  | kept decided keeps => exact (decided _ _).2 ⟨rfl, rfl⟩
  | _ => cases isPhase

end Fares

/-! ### Calls -/

section Course

variable {request : Request} {stage : Phase ⊕ Result}
  (course : @Program.Course pool PoolState (program settings shareDifficulty) request
    (.inl (.serving (.classifying share powHash))) moves stage)
  (wellFormed : ∀ move ∈ moves, move.data.ledger.WellFormed settings.shareThreshold)

include course wellFormed

/-- How a solution had fared when a step was made. -/
theorem fares_before (member : move ∈ moves) :
    ∃ before ⊆ moves, Fares share powHash before (.inl move.phase) := by
  obtain ⟨_, before, inside, reached⟩ := course.of_mem member
  exact ⟨before, inside, fares_of_course reached fun other among => wellFormed other (inside among)⟩

theorem treated_of_course : Treated share powHash moves stage where
  harmless := by
    intro other move member
    obtain ⟨before, inside, fares⟩ := fares_before course wellFormed member
    exact fares.ledger_eq fun valid => other (valid.mono inside)
  invalid := by
    rintro classified outcome rfl
    exact (fares_of_course course wellFormed).eq_of_invalid classified
  accepted := by
    rintro valid outcome rfl
    exact ((fares_of_course course wellFormed).keeps_of_valid valid).eq_true_iff
  refused := by
    rintro valid outcome rfl
    exact ((fares_of_course course wellFormed).keeps_of_valid valid).eq_false_iff
  failed := by
    rintro valid outcome rfl
    exact ((fares_of_course course wellFormed).keeps_of_valid valid).eq_error_iff
  forwarded := by
    rintro classified outcome rfl
    exact (fares_of_course course wellFormed).eq_of_fullBlock classified
  forgotten := by
    intro move member accepted
    obtain ⟨before, _, fares⟩ := fares_before course wellFormed member
    exact fares.works_get? accepted
  remembered := by
    intro move member declined
    obtain ⟨before, _, fares⟩ := fares_before course wellFormed member
    exact fares.works_eq declined

end Course

/-! ### Runs -/

/-- What a miner can rely on who hands in a solution, given the works that the pool has then. -/
def Served (works : WorkPool) (nonce : BlockNonce) (powHash mixDigest : Hash256)
    (moves : List (program settings shareDifficulty).Move) (stage : Phase ⊕ Result) : Prop :=
  match works.get? powHash with
  | none => moves = [] ∧ stage = .inr (.answered (.ok (.verdict false)))
  | some work =>
    Treated (Share.unclassified work.header work.shareDifficulty nonce mixDigest) powHash moves stage

theorem wellFormed_of_run (run : Program.Run trace system) (caller : Nat) :
    ∀ move ∈ Program.movesOf caller trace,
      move.data.ledger.WellFormed settings.shareThreshold := by
  intro move member
  exact (sound_of_moved run (Program.mem_movesOf.1 member).1).1

/-- A solution is refused at once, or its share is classified first. -/
theorem course_of_run (run : Program.Run trace system) {caller : Nat} {nonce : BlockNonce}
    {powHash mixDigest : Hash256} {stage : Phase ⊕ Result}
    (found : system.calls[caller]? = some ⟨.serve (.submitWork nonce powHash mixDigest), stage⟩) :
    ∃ early late before,
      trace = early ++ .arrived (.serve (.submitWork nonce powHash mixDigest)) :: late ∧
      Program.Run early before ∧ before.calls.length = caller ∧
      ((before.data.works.get? powHash = none ∧ Program.movesOf caller trace = [] ∧
          stage = .inr (.answered (.ok (.verdict false)))) ∨
        ∃ work, before.data.works.get? powHash = some work ∧
          @Program.Course pool PoolState (program settings shareDifficulty)
            (.serve (.submitWork nonce powHash mixDigest))
            (.inl (.serving (.classifying
              (Share.unclassified work.header work.shareDifficulty nonce mixDigest) powHash)))
            (Program.movesOf caller trace) stage) := by
  obtain ⟨early, late, before, now, split, arrived, place, course⟩ := run.exists_course found
  refine ⟨early, late, before, split, arrived, place, ?_⟩
  simp only [begin, Service.begin] at course
  cases known : before.data.works.get? powHash with
  | none =>
      rw [known] at course
      exact .inl ⟨rfl, course.of_answered⟩
  | some work =>
      rw [known] at course
      exact .inr ⟨work, rfl, course⟩

/-- What a miner can rely on who has handed in a solution. -/
theorem served_of_run (run : Program.Run trace system) {caller : Nat} {nonce : BlockNonce}
    {powHash mixDigest : Hash256} {stage : Phase ⊕ Result}
    (found : system.calls[caller]? = some ⟨.serve (.submitWork nonce powHash mixDigest), stage⟩) :
    ∃ early late before,
      trace = early ++ .arrived (.serve (.submitWork nonce powHash mixDigest)) :: late ∧
      Program.Run early before ∧ before.calls.length = caller ∧
      Served before.data.works nonce powHash mixDigest (Program.movesOf caller trace) stage := by
  obtain ⟨early, late, before, split, arrived, place, served⟩ := course_of_run run found
  refine ⟨early, late, before, split, arrived, place, ?_⟩
  rcases served with ⟨unknown, idle, answered⟩ | ⟨work, known, course⟩
  · rw [Served, unknown]
    exact ⟨idle, answered⟩
  · rw [Served, known]
    exact treated_of_course course (wellFormed_of_run run caller)

/-- Only who hands in a solution has a share kept. -/
theorem submits_of_rotated (run : Program.Run trace system) (moved : .moved move ∈ trace)
    {outcome : Except Error Rotation.Outcome} (rotated : rotatedBy? move = some outcome) :
    ∃ nonce powHash mixDigest stage,
      system.calls[move.caller]? = some ⟨.serve (.submitWork nonce powHash mixDigest), stage⟩ := by
  have mine : move ∈ Program.movesOf move.caller trace := Program.mem_movesOf.2 ⟨moved, rfl⟩
  have present : move.caller < system.calls.length := by
    by_contra absent
    rw [run.movesOf_eq_nil (Nat.le_of_not_lt absent)] at mine
    cases mine
  have found := List.getElem?_eq_getElem present
  obtain ⟨_, _, _, _, _, _, _, course⟩ := run.exists_course found
  have isRequest := (course.of_mem mine).1
  have fits := (sound_of_moved run moved).2.2
  have keeping : ∃ phase, move.phase = .serving (.keeping phase) := by
    obtain ⟨caller, request, phase, data, now, reply⟩ := move
    rcases phase with phase | phase
    · cases phase with
      | keeping phase => exact ⟨phase, rfl⟩
      | _ => cases rotated
    · cases rotated
  obtain ⟨phase, isPhase⟩ := keeping
  rw [isPhase, isRequest] at fits
  generalize isCall : system.calls[move.caller] = call at found fits
  obtain ⟨request, stage⟩ := call
  cases fits with
  | serving serves =>
      cases serves
      exact ⟨_, _, _, stage, found⟩

/-- The pool stops when the answer to a valid share is an error, and only then. -/
theorem stopped_iff_answered (run : Program.Run trace system) :
    system.data.stopped = true ↔ ∃ caller nonce powHash mixDigest error share,
      system.calls[caller]? =
        some ⟨.serve (.submitWork nonce powHash mixDigest), .inr (.answered (.error error))⟩ ∧
      Happened (Classifies share .validShare) (Program.movesOf caller trace) := by
  rw [stopped_iff_of_run run]
  constructor
  · rintro ⟨move, moved, error, fails, fatal⟩
    have mine : move ∈ Program.movesOf move.caller trace := Program.mem_movesOf.2 ⟨moved, rfl⟩
    obtain ⟨nonce, powHash, mixDigest, stage, found⟩ := submits_of_rotated run moved fails
    obtain ⟨_, _, _, _, _, _, ⟨_, idle, _⟩ | ⟨work, _, course⟩⟩ := course_of_run run found
    · rw [idle] at mine
      cases mine
    · have wellFormed := wellFormed_of_run run move.caller
      obtain ⟨before, inside, fares⟩ := fares_before course wellFormed mine
      have valid := (fares.valid_of_rotated fails).mono inside
      have keeps := (fares_of_course course wellFormed).keeps_of_valid valid
      rw [keeps.stage_eq_of_fatal ⟨move, mine, fails⟩ fatal] at found
      exact ⟨_, _, _, _, error, _, found, valid⟩
  · rintro ⟨caller, nonce, powHash, mixDigest, error, share, found, valid⟩
    obtain ⟨_, _, _, _, _, _, ⟨_, idle, _⟩ | ⟨work, _, course⟩⟩ := course_of_run run found
    · simp [idle] at valid
    · have fares := fares_of_course course (wellFormed_of_run run caller)
      obtain ⟨⟨move, mine, fails⟩, fatal⟩ := ((fares.keeps_of_valid valid).eq_error_iff error).1 rfl
      exact ⟨move, (Program.mem_movesOf.1 mine).1, error, fails, fatal⟩

end MiningPool.Pool
