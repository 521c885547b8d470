/-
Module: MiningPool.Proofs.Work.Service
Purpose: what one step of answering a miner does.
Main exports: Service.rotated?, Service.Step, Service.resume_step, WorkPool.get?_erase_self
-/
import MiningPool.Proofs.Ledger.Rotation
import MiningPool.Work.Service

/-!
The steps are listed with the exchange that ends in them, the state that they leave, and what becomes of
the share that is being kept, if that is settled with the step.
-/

namespace MiningPool

/-- A work is a template with the difficulty of the pool. -/
theorem Work.of_ofTemplate_eq_ok {template : BlockTemplate} {shareDifficulty : Nat} {work : Work}
    (made : Work.ofTemplate template shareDifficulty = .ok work) :
    work.header = template.header ∧ work.powHash = template.powHash ∧
      work.shareDifficulty = shareDifficulty := by
  simp only [Work.ofTemplate, bind, Except.bind] at made
  split at made
  · cases made
  · cases made
    exact ⟨rfl, rfl, rfl⟩

/-- With a positive difficulty every template becomes work. -/
theorem Work.exists_ofTemplate_eq {shareDifficulty : Nat} (positive : 0 < shareDifficulty)
    (template : BlockTemplate) : ∃ work, Work.ofTemplate template shareDifficulty = .ok work := by
  simp only [Work.ofTemplate, MiningPool.shareTarget, if_neg positive.ne', bind, Except.bind]
  split <;> rename_i target
  · split at target <;> cases target
  · exact ⟨_, rfl⟩

namespace WorkPool

theorem get?_erase_self (works : WorkPool) (powHash : Hash256) :
    (works.erase powHash).get? powHash = none := by
  simp [get?, erase]

theorem get?_erase_of_ne {hash powHash : Hash256} (different : hash ≠ powHash) (works : WorkPool) :
    (works.erase powHash).get? hash = works.get? hash := by
  rw [get?, get?, erase, List.find?_filter]
  congr 1
  funext work
  by_cases same : work.powHash = hash
  · simp [same, different]
  · simp [same]

/-- The work for a hash is in the pool under it. -/
theorem of_get?_eq_some {works : WorkPool} {powHash : Hash256} {work : Work}
    (found : works.get? powHash = some work) : work ∈ works.works ∧ work.powHash = powHash :=
  ⟨List.mem_of_find?_eq_some found, by simpa using List.find?_some found⟩

/-- What is in the pool after a work has been added has been there before or is the new one. -/
theorem of_mem_insert {works : WorkPool} {work other : Work}
    (member : other ∈ (works.insert work).works) : other = work ∨ other ∈ works.works := by
  rcases List.mem_cons.1 member with new | old
  · exact .inl new
  · exact .inr (List.mem_of_mem_filter (List.mem_of_mem_filter old))

end WorkPool

namespace Service

variable {settings : LedgerSettings} {shareDifficulty : Nat} {state : PoolState}

/-! ### What the steps leave alone -/

@[simp] theorem settle_ledger (state : PoolState) (outcome : Except Error Rotation.Outcome) :
    (settle state outcome).1.ledger = state.ledger := by
  unfold settle
  split
  · rfl
  · rfl
  · split <;> rfl

@[simp] theorem settle_works (state : PoolState) (outcome : Except Error Rotation.Outcome) :
    (settle state outcome).1.works = state.works := by
  unfold settle
  split
  · rfl
  · rfl
  · split <;> rfl

/-- Only a fatal failure stops the pool. -/
theorem settle_stopped (state : PoolState) (outcome : Except Error Rotation.Outcome) :
    (settle state outcome).1.stopped = true ↔
      state.stopped = true ∨ ∃ error, outcome = .error error ∧ error.fatal = true := by
  unfold settle
  split
  · simp
  · simp
  · rename_i error
    split <;> rename_i fatal <;> simp [fatal]

@[simp] theorem fetched_ledger (state : PoolState) (outcome : Except Error BlockTemplate) :
    (fetched shareDifficulty state outcome).1.ledger = state.ledger := by
  cases outcome with
  | error error => rfl
  | ok template =>
      simp only [fetched, remember]
      split <;> rfl

@[simp] theorem fetched_stopped (state : PoolState) (outcome : Except Error BlockTemplate) :
    (fetched shareDifficulty state outcome).1.stopped = state.stopped := by
  cases outcome with
  | error error => rfl
  | ok template =>
      simp only [fetched, remember]
      split <;> rfl

/-- A new work in the pool is a template that the node has handed out. -/
theorem of_mem_fetched {outcome : Except Error BlockTemplate} {work : Work}
    (member : work ∈ (fetched shareDifficulty state outcome).1.works.works) :
    work ∈ state.works.works ∨
      ∃ template, outcome = .ok template ∧ Work.ofTemplate template shareDifficulty = .ok work := by
  cases outcome with
  | error error => exact .inl member
  | ok template =>
      simp only [fetched, remember] at member
      split at member
      · exact .inl member
      · rename_i new made
        rcases WorkPool.of_mem_insert member with rfl | old
        · exact .inr ⟨template, rfl, made⟩
        · exact .inl old

@[simp] theorem forwarded_ledger (state : PoolState) (powHash : Hash256)
    (verdict : Except Error Bool) :
    (forwarded state powHash verdict).1.ledger = state.ledger := by
  rcases verdict with error | _ | _ <;> rfl

@[simp] theorem forwarded_stopped (state : PoolState) (powHash : Hash256)
    (verdict : Except Error Bool) :
    (forwarded state powHash verdict).1.stopped = state.stopped := by
  rcases verdict with error | _ | _ <;> rfl

/-- The miner is told what the node has said. -/
theorem forwarded_answer (state : PoolState) (powHash : Hash256) (verdict : Except Error Bool) :
    (forwarded state powHash verdict).2 = verdict.map .verdict := by
  rcases verdict with error | _ | _ <;> rfl

theorem forwarded_works_of_ne (state : PoolState) (powHash : Hash256) {verdict : Except Error Bool}
    (declined : verdict ≠ .ok true) : (forwarded state powHash verdict).1.works = state.works := by
  rcases verdict with error | _ | _
  · rfl
  · rfl
  · exact absurd rfl declined

/-! ### The steps -/

/-- What becomes of a share that is being kept, when that is settled with a step. -/
def rotated? (settings : LedgerSettings) (state : PoolState) :
    (phase : Phase) → (await phase).Reply → Option (Except Error Rotation.Outcome)
  | .keeping phase, reply => (Rotation.resume settings state.ledger phase reply).2.getRight?
  | _, _ => none

/-- The steps: phase, exchange, state after the step, next phase or answer, and what becomes of a share. -/
inductive Step (settings : LedgerSettings) (shareDifficulty : Nat) (state : PoolState) :
    Phase → Option (Exchange pool) → PoolState → Next →
      Option (Except Error Rotation.Outcome) → Prop where
  | fetched (outcome : Except Error BlockTemplate) :
      Step settings shareDifficulty state .fetching (some ⟨PoolQuery.getWork, outcome⟩)
        (fetched shareDifficulty state outcome).1 (.inr (fetched shareDifficulty state outcome).2) none
  | classified (share : Share) (powHash : Hash256) (outcome : Except Error SolutionState) :
      Step settings shareDifficulty state (.classifying share powHash)
        (some ⟨PoolQuery.solutionState share, outcome⟩) state (classified share powHash outcome) none
  | forwarded (share : Share) (powHash : Hash256) (verdict : Except Error Bool) :
      Step settings shareDifficulty state (.forwarding share powHash)
        (some ⟨PoolQuery.submitWork share.nonce powHash share.mixDigest, verdict⟩)
        (forwarded state powHash verdict).1 (.inr (forwarded state powHash verdict).2) none
  | rotation {phase next : Rotation.Phase} {exchange : Option (Exchange pool)} {after : Ledger}
      (step : Rotation.Step settings state.ledger phase exchange after (.inl next)) :
      Step settings shareDifficulty state (.keeping phase) exchange { state with ledger := after }
        (.inl (.keeping next)) none
  | rotated {phase : Rotation.Phase} {exchange : Option (Exchange pool)} {after : Ledger}
      {outcome : Except Error Rotation.Outcome}
      (step : Rotation.Step settings state.ledger phase exchange after (.inr outcome)) :
      Step settings shareDifficulty state (.keeping phase) exchange
        (settle { state with ledger := after } outcome).1
        (.inr (settle { state with ledger := after } outcome).2) (some outcome)
  | reported (rate : Nat) (id : Hash256) (outcome : Except Error Bool) :
      Step settings shareDifficulty state (.reporting rate id)
        (some ⟨PoolQuery.submitHashrate rate id, outcome⟩) state (.inr (reported outcome)) none

theorem resume_step (phase : Phase) (reply : (await phase).Reply) :
    Step settings shareDifficulty state phase ((await phase).exchange? reply)
      (resume settings shareDifficulty state phase reply).1
      (resume settings shareDifficulty state phase reply).2 (rotated? settings state phase reply) := by
  cases phase with
  | fetching => exact .fetched reply
  | classifying share powHash => exact .classified share powHash reply
  | forwarding share powHash => exact .forwarded share powHash reply
  | keeping phase =>
      have step : Rotation.Step settings state.ledger phase _ _ _ := Rotation.resume_step phase reply
      simp only [resume, rotated?]
      revert step
      generalize Rotation.resume settings state.ledger phase reply = result
      obtain ⟨after, next | outcome⟩ := result
      · exact fun step => .rotation step
      · exact fun step => .rotated step
  | reporting rate id => exact .reported rate id reply

variable {after : PoolState} {phase : Phase} {exchange : Option (Exchange pool)} {next : Next}
  {outcome? : Option (Except Error Rotation.Outcome)}

/-- A failed share surfaces only with a fatal error. -/
theorem fatal_of_settle {outcome : Except Error Rotation.Outcome} {error : Error}
    (failed : (settle state outcome).2 = .error error) : error.fatal = true := by
  unfold settle at failed
  split at failed
  · cases failed
  · cases failed
  · split at failed
    · rename_i fatal
      cases failed
      exact fatal
    · cases failed

/-- The service finds no fault with parameters by itself, unless the pool has no difficulty. -/
theorem Step.kind_of_failed {error : Error}
    (step : Step settings shareDifficulty state phase exchange after (.inr (.error error)) outcome?)
    (positive : 0 < shareDifficulty)
    (proper : ∀ query reported, exchange = some ⟨query, .error reported⟩ →
      reported.kind ≠ .invalidParams) : error.kind ≠ .invalidParams := by
  generalize result : (Sum.inr (.error error) : Next) = next at step
  cases step with
  | fetched outcome =>
      cases outcome with
      | error reported =>
          cases result
          exact proper _ _ rfl
      | ok template =>
          obtain ⟨work, made⟩ := Work.exists_ofTemplate_eq positive template
          simp only [Service.fetched, remember, made] at result
          cases result
  | classified share powHash outcome =>
      rcases outcome with reported | _ | _ | _
      · cases result
        exact proper _ _ rfl
      · cases result
      · cases result
      · cases result
  | forwarded share powHash verdict =>
      rcases verdict with reported | _ | _
      · cases result
        exact proper _ _ rfl
      · cases result
      · cases result
  | rotation step => cases result
  | rotated step =>
      have fatal := fatal_of_settle (Sum.inr.inj result).symm
      intro params
      rw [Error.fatal, params] at fatal
      cases fatal
  | reported rate id outcome =>
      cases outcome with
      | error reported =>
          cases result
          exact proper _ _ rfl
      | ok accepted => cases result

/-- Only a share whose claim fails fatally stops the pool. -/
theorem Step.stopped_iff
    (step : Step settings shareDifficulty state phase exchange after next outcome?) :
    after.stopped = true ↔ state.stopped = true ∨
      ∃ error, outcome? = some (.error error) ∧ error.fatal = true := by
  cases step with
  | fetched outcome => simp
  | classified share powHash outcome => simp
  | forwarded share powHash verdict => simp
  | rotation step => simp
  | rotated step =>
      rw [settle_stopped]
      simp
  | reported rate id outcome => simp

/-- A work in the pool has been there before, or the node has just handed out its template. -/
theorem Step.of_mem_works
    (step : Step settings shareDifficulty state phase exchange after next outcome?) {work : Work}
    (member : work ∈ after.works.works) :
    work ∈ state.works.works ∨ ∃ template, exchange = some ⟨PoolQuery.getWork, .ok template⟩ ∧
      Work.ofTemplate template shareDifficulty = .ok work := by
  cases step with
  | fetched outcome =>
      rcases of_mem_fetched member with old | ⟨template, rfl, made⟩
      · exact .inl old
      · exact .inr ⟨template, rfl, made⟩
  | classified share powHash outcome => exact .inl member
  | forwarded share powHash verdict =>
      rcases verdict with error | _ | _
      · exact .inl member
      · exact .inl member
      · exact .inl (List.mem_of_mem_filter member)
  | rotation step => exact .inl member
  | rotated step =>
      rw [settle_works] at member
      exact .inl member
  | reported rate id outcome => exact .inl member

/-- The phases that lead to an answer. -/
inductive Serves : Call → Phase → Prop where
  | fetching : Serves .getWork .fetching
  | classifying (share : Share) (powHash : Hash256) :
      Serves (.submitWork share.nonce powHash share.mixDigest) (.classifying share powHash)
  | forwarding (share : Share) (powHash : Hash256) :
      Serves (.submitWork share.nonce powHash share.mixDigest) (.forwarding share powHash)
  | keeping {nonce : BlockNonce} {powHash mixDigest : Hash256} {rotation : Rotation.Phase} :
      Serves (.submitWork nonce powHash mixDigest) (.keeping rotation)
  | reporting {rate : Nat} {id : Hash256} : Serves (.submitHashrate rate id) (.reporting rate id)

theorem serves_begin {call : Call} (begun : begin state call = .inl phase) : Serves call phase := by
  cases call with
  | getWork =>
      cases begun
      exact .fetching
  | submitWork nonce powHash mixDigest =>
      simp only [begin] at begun
      split at begun
      · cases begun
      · cases begun
        exact .classifying (Share.unclassified _ _ nonce mixDigest) powHash
  | submitHashrate rate id =>
      cases begun
      exact .reporting

theorem classified_eq_inl {share : Share} {powHash : Hash256} {outcome : Except Error SolutionState}
    (goesOn : classified share powHash outcome = .inl phase) :
    (outcome = .ok .fullBlock ∧ phase = .forwarding { share with state := .fullBlock } powHash) ∨
      (outcome = .ok .validShare ∧
        phase = .keeping (.entering (some { share with state := .validShare }))) := by
  rcases outcome with error | _ | _ | _
  · cases goesOn
  · cases goesOn
  · cases goesOn
    exact .inr ⟨rfl, rfl⟩
  · cases goesOn
    exact .inl ⟨rfl, rfl⟩

theorem Serves.step {call : Call} {next : Phase} (serves : Serves call phase)
    (step : Step settings shareDifficulty state phase exchange after (.inl next) outcome?) :
    Serves call next := by
  generalize result : Sum.inl next = stage at step
  cases step with
  | fetched outcome => cases result
  | classified share powHash outcome =>
      cases serves
      rcases classified_eq_inl result.symm with ⟨_, rfl⟩ | ⟨_, rfl⟩
      · exact .forwarding { share with state := .fullBlock } powHash
      · exact .keeping
  | forwarded share powHash verdict => cases result
  | rotation step =>
      cases serves
      cases result
      exact .keeping
  | rotated step => cases result
  | reported rate id outcome => cases result

end Service

end MiningPool
