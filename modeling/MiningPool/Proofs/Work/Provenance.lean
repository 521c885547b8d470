/-
Module: MiningPool.Proofs.Work.Provenance
Purpose: every share in a claim has been earned, and miners are told the truth.
Main exports: Pool.Origin, Pool.origin_of_run, Pool.Honest, Pool.honest_of_run
-/
import MiningPool.Proofs.Work.Treatment

/-!
A work in the pool goes back to a template of the node. A share in a claim goes back to a solution that was
handed in for a work in the pool and that the proof-of-work scheme found good enough. So nobody is paid for
a block that the node has never asked for, or for less than the difficulty of the pool.
-/

namespace MiningPool.Pool

variable {settings : LedgerSettings} {shareDifficulty : Nat}
  {trace : List (program settings shareDifficulty).Event}
  {system : (program settings shareDifficulty).System}
  {move : (program settings shareDifficulty).Move} {share : Share}

/-! ### Works -/

/-- The node has handed out a template. -/
def Fetched (trace : List (program settings shareDifficulty).Event) (template : BlockTemplate) :
    Prop :=
  ∃ move, .moved move ∈ trace ∧ move.exchange? = some ⟨PoolQuery.getWork, .ok template⟩

theorem Fetched.concat {template : BlockTemplate} (fetched : Fetched trace template)
    (event : (program settings shareDifficulty).Event) : Fetched (trace ++ [event]) template := by
  obtain ⟨move, moved, exchange⟩ := fetched
  exact ⟨move, List.mem_append_left _ moved, exchange⟩

/-- What is in the pool after a step has been there before, or the node has just handed it out. -/
theorem of_mem_works {work : Work} (member : work ∈ move.after.works.works) :
    work ∈ move.data.works.works ∨
      ∃ template, move.exchange? = some ⟨PoolQuery.getWork, .ok template⟩ ∧
        Work.ofTemplate template shareDifficulty = .ok work := by
  cases isPhase : move.phase with
  | serving phase =>
      obtain ⟨next, step, _⟩ := service_step isPhase
      exact step.of_mem_works member
  | tending phase =>
      obtain ⟨after, next, isAfter, _⟩ := tending_step isPhase
      rw [isAfter] at member
      exact .inl member

/-- Every work in the pool is a template that the node has handed out. -/
theorem fetched_of_run (run : Program.Run trace system) :
    ∀ work ∈ system.data.works.works, ∃ template, Fetched trace template ∧
      Work.ofTemplate template shareDifficulty = .ok work := by
  induction run with
  | start =>
      intro work member
      cases member
  | @step trace system next event run step ih =>
      have before : ∀ work ∈ system.data.works.works, ∃ template,
          Fetched (trace ++ [event]) template ∧
            Work.ofTemplate template shareDifficulty = .ok work := by
        intro work member
        obtain ⟨template, fetched, made⟩ := ih work member
        exact ⟨template, fetched.concat event, made⟩
      cases step with
      | arrive request now => exact before
      | stop => exact before
      | move move running data free told =>
          intro work member
          rcases of_mem_works member with old | ⟨template, exchange, made⟩
          · rw [data] at old
            exact before work old
          · exact ⟨template, ⟨move, List.mem_concat_self, exchange⟩, made⟩

/-! ### Shares -/

/-- A share goes back to a solution that has been classified, and to a template that the node has handed
out before under the hash that the solution was handed in for. -/
structure Origin (trace : List (program settings shareDifficulty).Event) (share : Share) : Prop where
  valid : share.state = .validShare
  difficulty : share.difficulty = shareDifficulty
  source : ∃ early late before powHash template,
    trace = early ++ .arrived (.serve (.submitWork share.nonce powHash share.mixDigest)) :: late ∧
    Program.Run early before ∧ Fetched early template ∧
    template.powHash = powHash ∧ template.header = share.header ∧
    Happened (Classifies { share with state := .invalid } .validShare)
      (Program.movesOf before.calls.length trace)

theorem Origin.concat (origin : Origin trace share)
    (event : (program settings shareDifficulty).Event) : Origin (trace ++ [event]) share where
  valid := origin.valid
  difficulty := origin.difficulty
  source := by
    obtain ⟨early, late, before, powHash, template, split, run, fetched, isHash, isHeader, valid⟩ :=
      origin.source
    refine ⟨early, late ++ [event], before, powHash, template, by simp [split], run, fetched, isHash,
      isHeader, ?_⟩
    exact valid.mono (Program.movesOf_subset_concat _ _ _)

/-- A share that waits for the ledger has been earned. -/
theorem origin_of_entering (run : Program.Run trace system) {caller : Nat} {request : Request}
    {stage : Phase ⊕ Result} (found : system.calls[caller]? = some ⟨request, stage⟩)
    (entering : partAfter stage = .rotation (.entering (some share))) : Origin trace share := by
  have fits := ((sound_of_run run).2 _ (List.mem_of_getElem? found)).2
  obtain ⟨⟨nonce, powHash, mixDigest, rfl⟩, rfl⟩ := fits.of_entering entering
  obtain ⟨early, late, before, split, arrived, rfl, served⟩ := course_of_run run found
  rcases served with ⟨_, _, answered⟩ | ⟨work, known, course⟩
  · cases answered
  · obtain ⟨inside, isHash⟩ := WorkPool.of_get?_eq_some known
    obtain ⟨template, fetched, made⟩ := fetched_of_run arrived work inside
    obtain ⟨header, hash, difficulty⟩ := Work.of_ofTemplate_eq_ok made
    have fares := fares_of_course course (wellFormed_of_run run _)
    cases fares with
    | kept decided keeps =>
        cases keeps with
        | entering untaken unrepeated unfailed =>
            constructor
            · rfl
            · exact difficulty
            · exact ⟨early, late, before, powHash, template, split, arrived, fetched,
                hash.symm.trans isHash, header.symm, (decided _ _).2 ⟨rfl, rfl⟩⟩

/-- Every share in a claim has been earned. -/
theorem origin_of_run (run : Program.Run trace system) :
    ∀ share ∈ system.data.ledger.shares, Origin trace share := by
  induction run with
  | start =>
      intro share member
      cases member
  | step run step ih =>
      cases step with
      | arrive request now => exact fun share member => (ih share member).concat _
      | stop => exact fun share member => (ih share member).concat _
      | move move running data free told =>
          intro share member
          obtain ⟨wellFormed, sound⟩ := sound_of_run run
          rw [← data] at wellFormed sound ih
          have soundCall := (sound _ (List.mem_of_getElem? running)).1
          have same := (move_change move).perm_shares wellFormed soundCall
          rcases List.mem_append.1 (same.mem_iff.1 member) with new | old
          · obtain ⟨entering, _⟩ := Ledger.Part.arrival?_eq_some.1 (Option.mem_toList.1 new)
            exact (origin_of_entering run running entering).concat _
          · exact (ih share old).concat _

/-! ### Miners and claims -/

/-- What miners and those who pay for the claims can rely on. -/
structure Honest (trace : List (program settings shareDifficulty).Event)
    (system : (program settings shareDifficulty).System) : Prop where
  /-- Every share in a claim has been earned. -/
  earned : ∀ share ∈ system.data.ledger.shares, Origin trace share
  /-- The answer to a solution says what has become of it. -/
  served : ∀ {caller nonce powHash mixDigest stage},
    system.calls[caller]? = some ⟨.serve (.submitWork nonce powHash mixDigest), stage⟩ →
      ∃ early late before,
        trace = early ++ .arrived (.serve (.submitWork nonce powHash mixDigest)) :: late ∧
        Program.Run early before ∧ before.calls.length = caller ∧
        Served before.data.works nonce powHash mixDigest (Program.movesOf caller trace) stage
  /-- The pool stops when the answer to a valid share is an error, and only then. -/
  stopped : system.data.stopped = true ↔ ∃ caller nonce powHash mixDigest error share,
    system.calls[caller]? =
      some ⟨.serve (.submitWork nonce powHash mixDigest), .inr (.answered (.error error))⟩ ∧
    Happened (Classifies share .validShare) (Program.movesOf caller trace)

/-- In every run, claims hold only shares that have been earned, and miners are told the truth. -/
theorem honest_of_run (run : Program.Run trace system) : Honest trace system where
  earned := origin_of_run run
  served := served_of_run run
  stopped := stopped_iff_answered run

/-- A template with nothing but zeros. -/
def plainTemplate : BlockTemplate := ⟨Ledger.plainShare.header, .zero 32, .zero 32⟩

/-- The template as a work with the least difficulty. -/
def plainWork : Work := ⟨plainTemplate.header, .zero 32, .zero 32, 1, .replicate 32 0xff⟩

/-- A solution for it. -/
def plainSolution : Share := Share.unclassified plainWork.header 1 0 (.zero 32)

/-- The request for the work, once it has been answered. -/
def plainFetch : (program Ledger.promptSettings 1).Call :=
  ⟨.serve .getWork, .inr (.answered (.ok (.package plainWork.package)))⟩

theorem run_plainFetch : ∃ trace, Program.Run trace
    (⟨⟨.fresh, ⟨[plainWork]⟩, false⟩, [plainFetch], false⟩ :
      (program Ledger.promptSettings 1).System) := by
  have begun := Program.Run.start.step
    (.arrive (⟨.fresh, [], false⟩ : (program Ledger.promptSettings 1).System)
      (Request.serve .getWork) 0)
  have made : Work.ofTemplate plainTemplate 1 = .ok plainWork := rfl
  have fetched : resume Ledger.promptSettings 1 .fresh 0 (.serving .fetching) (.ok plainTemplate) =
      (⟨.fresh, ⟨[plainWork]⟩, false⟩, plainFetch.stage) := by
    simp only [resume, Service.resume, Service.fetched, Service.remember, made]
    rfl
  exact ⟨_, begun.move_last (List.forall_mem_nil _) 0 (.ok plainTemplate)
    (List.forall_mem_nil _) id fetched⟩

/-- A work is fetched, a solution for it is a valid share, and the contract fails beyond repair. -/
theorem honest_of_stopped_run :
    ∃ (trace : List (program Ledger.promptSettings 1).Event)
      (system : (program Ledger.promptSettings 1).System),
      Program.Run trace system ∧ system.data.stopped = true ∧
        { plainSolution with state := .validShare } ∈ system.data.ledger.shares ∧
        Honest trace system := by
  let kept : Share := { plainSolution with state := .validShare }
  let failure : Except Error Hash256 := .error (.reported .invalidState "lost")
  have idle : ∀ call ∈ [plainFetch], call.held = [] := by
    intro call member
    rw [List.mem_singleton.1 member]
    rfl
  obtain ⟨trace, run⟩ := run_plainFetch
  have arrived := run.step (.arrive _ (Request.serve (.submitWork 0 (.zero 32) (.zero 32))) 0)
  have entering := arrived.move_last idle 0 (.ok .validShare) (List.forall_mem_nil _) id rfl
  have entered : Rotation.resume Ledger.promptSettings .fresh (.entering (some kept)) () =
      ((Ledger.fresh.add kept).1, .inl (.submitting (Ledger.onlyRotation kept)
        (Retry.start Ledger.promptSettings.retry))) := by
    rw [← Ledger.look_onlyRotation (Nat.le_refl 1) kept]
    rfl
  have submitting := entering.move_last idle 0 () (fun _ _ => List.not_mem_nil) id
    (show resume Ledger.promptSettings 1 _ 0 (.serving (.keeping (.entering (some kept)))) () = _ by
      simp only [resume, Service.resume, entered]
      rfl)
  have failed := submitting.move_last idle 0 failure (List.forall_mem_nil _) id rfl
  refine ⟨_, _, failed, rfl, ?_, honest_of_run failed⟩
  exact List.mem_singleton_self kept

end MiningPool.Pool
