/-
Module: MiningPool.Proofs.Work.History
Purpose: which works a pool holds after any insertions and removals.
Main exports: WorkPool.Claimable, WorkPool.mem_after, WorkPool.claimable_exact, Pool.get?_of_run
-/
import Mathlib.Data.Set.Card
import MiningPool.Proofs.Work.Program

/-!
A work is claimable if nothing that came after it has taken it away: no work in its place, no removal of its
hash, and no work that it is too far behind. The numbers of the works that come in may go up and down, so a work
may be too far behind an earlier one of them though the last one is close to it. While a pool serves miners, the
templates of the node are inserted, and a work is removed when the node has accepted a block for it.
-/

namespace MiningPool

namespace WorkPool

/-! ### Members -/

theorem mem_erase {pool : WorkPool} {powHash : Hash256} {work : Work} :
    work ∈ (pool.erase powHash).works ↔ work ∈ pool.works ∧ work.powHash ≠ powHash := by
  simp [erase]

theorem mem_prune {pool : WorkPool} {number : Nat} {work : Work} :
    work ∈ (pool.prune number).works ↔ work ∈ pool.works ∧ number - 8 ≤ work.number := by
  simp [prune, retention]

theorem mem_insert {pool : WorkPool} {newer work : Work} :
    work ∈ (pool.insert newer).works ↔ work = newer ∨
      work ∈ pool.works ∧ work.powHash ≠ newer.powHash ∧ newer.number - 8 ≤ work.number := by
  rw [insert, List.mem_cons, mem_erase, mem_prune, and_assoc, and_comm (a := newer.number - 8 ≤ _)]

/-- There is at most one work for a hash. -/
def Distinct (pool : WorkPool) : Prop := (pool.works.map Work.powHash).Nodup

theorem Distinct.filter {pool : WorkPool} (distinct : pool.Distinct) (keep : Work → Bool) :
    Distinct ⟨pool.works.filter keep⟩ :=
  distinct.sublist (List.filter_sublist.map _)

theorem Distinct.erase {pool : WorkPool} (distinct : pool.Distinct) (powHash : Hash256) :
    (pool.erase powHash).Distinct :=
  distinct.filter _

theorem Distinct.insert {pool : WorkPool} (distinct : pool.Distinct) (work : Work) :
    (pool.insert work).Distinct := by
  rw [Distinct, WorkPool.insert, List.map_cons, List.nodup_cons]
  constructor
  · intro member
    obtain ⟨old, kept, same⟩ := List.mem_map.1 member
    exact (mem_erase.1 kept).2 same
  · exact (distinct.filter _).erase work.powHash

/-- In a pool with one work for a hash, that work is found. -/
theorem Distinct.get?_eq_some {pool : WorkPool} (distinct : pool.Distinct) {powHash : Hash256}
    {work : Work} : pool.get? powHash = some work ↔ work.powHash = powHash ∧ work ∈ pool.works := by
  constructor
  · intro found
    exact (of_get?_eq_some found).symm
  · rintro ⟨rfl, member⟩
    cases found : pool.get? work.powHash with
    | none => simpa using List.find?_eq_none.1 found work member
    | some other =>
        obtain ⟨otherMember, same⟩ := of_get?_eq_some found
        rw [List.inj_on_of_nodup_map distinct otherMember member same]

theorem Distinct.encard {pool : WorkPool} (distinct : pool.Distinct) :
    Set.encard {work | work ∈ pool.works} = pool.size := by
  rw [← List.coe_toFinset, Set.encard_coe_eq_coe_finsetCard,
    List.toFinset_card_of_nodup (List.Nodup.of_map _ distinct), size]

/-! ### Operations -/

/-- What is done to a pool. -/
inductive Operation where
  | insert (work : Work)
  | remove (powHash : Hash256)

namespace Operation

def apply (pool : WorkPool) : Operation → WorkPool
  | insert work => pool.insert work
  | remove powHash => pool.erase powHash

/-- A work that has been in the pool before stays there. -/
def Spares (work : Work) : Operation → Prop
  | insert newer => work.powHash ≠ newer.powHash ∧ newer.number - 8 ≤ work.number
  | remove powHash => work.powHash ≠ powHash

/-- What is in the pool after an operation is what it inserts, and what it spares. -/
theorem mem_apply {operation : Operation} {pool : WorkPool} {work : Work} :
    work ∈ (operation.apply pool).works ↔
      operation = .insert work ∨ work ∈ pool.works ∧ operation.Spares work := by
  cases operation with
  | insert newer => rw [apply, mem_insert, Spares, insert.injEq, eq_comm]
  | remove powHash => simp only [apply, mem_erase, Spares, reduceCtorEq, false_or]

end Operation

/-- The pool after operations on the empty one, the earliest in front. -/
def after (history : List Operation) : WorkPool :=
  history.foldl (fun pool operation => operation.apply pool) empty

theorem after_concat (history : List Operation) (operation : Operation) :
    after (history ++ [operation]) = operation.apply (after history) := by
  rw [after, List.foldl_append]
  rfl

/-! ### Claimable works -/

/-- No later operation takes a work away. -/
structure Outlasts (work : Work) (later : List Operation) : Prop where
  newest : ∀ newer, .insert newer ∈ later → work.powHash ≠ newer.powHash
  notRemoved : .remove work.powHash ∉ later
  recent : ∀ newer, .insert newer ∈ later → newer.number - 8 ≤ work.number

/-- A work has been inserted, and no later operation takes it away. -/
def Claimable (history : List Operation) (work : Work) : Prop :=
  ∃ earlier later, history = earlier ++ .insert work :: later ∧ Outlasts work later

theorem outlasts_iff {work : Work} {later : List Operation} :
    Outlasts work later ↔ ∀ operation ∈ later, operation.Spares work := by
  constructor
  · intro outlasts operation member
    cases operation with
    | insert newer => exact ⟨outlasts.newest newer member, outlasts.recent newer member⟩
    | remove powHash =>
        rintro rfl
        exact outlasts.notRemoved member
  · intro spares
    exact ⟨fun newer member => (spares _ member).1, fun member => spares _ member rfl,
      fun newer member => (spares _ member).2⟩

theorem claimable_concat {history : List Operation} {operation : Operation} {work : Work} :
    Claimable (history ++ [operation]) work ↔
      operation = .insert work ∨ Claimable history work ∧ operation.Spares work := by
  simp only [Claimable, outlasts_iff]
  constructor
  · rintro ⟨earlier, later, same, spares⟩
    -- The new operation is the insertion itself, or the last of those behind it.
    rcases List.eq_nil_or_concat later with rfl | ⟨later, last, rfl⟩
    · exact .inl (List.cons.inj (List.append_inj' same rfl).2).1
    · rw [List.concat_eq_append, ← List.cons_append, ← List.append_assoc] at same
      obtain ⟨rfl, ⟨⟩⟩ := List.append_inj' same rfl
      rw [List.concat_eq_append, List.forall_mem_append, List.forall_mem_singleton] at spares
      exact .inr ⟨⟨earlier, later, rfl, spares.1⟩, spares.2⟩
  · rintro (rfl | ⟨⟨earlier, later, rfl, spares⟩, spared⟩)
    · exact ⟨history, [], rfl, List.forall_mem_nil _⟩
    · refine ⟨earlier, later ++ [operation], by simp, ?_⟩
      rw [List.forall_mem_append, List.forall_mem_singleton]
      exact ⟨spares, spared⟩

/-- A pool holds the claimable works. -/
theorem mem_after {history : List Operation} {work : Work} :
    work ∈ (after history).works ↔ Claimable history work := by
  -- Both sides change with a further operation in the same way.
  induction history using List.reverseRecOn with
  | nil =>
      refine iff_of_false List.not_mem_nil ?_
      rintro ⟨earlier, later, none, _⟩
      simp at none
  | append_singleton history operation ih =>
      rw [after_concat, Operation.mem_apply, claimable_concat, ih]

theorem distinct_after (history : List Operation) : (after history).Distinct := by
  induction history using List.reverseRecOn with
  | nil => exact List.nodup_nil
  | append_singleton history operation ih =>
      rw [after_concat]
      cases operation with
      | insert work => exact ih.insert work
      | remove powHash => exact ih.erase powHash

/-- After any insertions and removals, the work for a hash is the claimable one, and the size is the number of
claimable works. A template from the node is refused without a share difficulty, and everything stays as it is;
with one it is inserted. -/
theorem claimable_exact :
    (∀ history powHash work, (after history).get? powHash = some work ↔
      work.powHash = powHash ∧ Claimable history work) ∧
    (∀ history powHash, (after history).get? powHash = none ↔
      ¬∃ work, work.powHash = powHash ∧ Claimable history work) ∧
    (∀ history, Set.encard {work | Claimable history work} = (after history).size) ∧
    ∀ (settings : LedgerSettings) (shareDifficulty : Nat) (state : PoolState)
      (template : BlockTemplate),
      shareDifficulty = 0 ∧
          Service.resume settings shareDifficulty state .fetching (.ok template) =
            (state, .inr (.error (.params .zeroDifficulty))) ∨
        0 < shareDifficulty ∧ ∃ work, Work.ofTemplate template shareDifficulty = .ok work ∧
          Service.resume settings shareDifficulty state .fetching (.ok template) =
            ({ state with works := state.works.insert work }, .inr (.ok (.package work.package))) := by
  have lookup : ∀ history powHash work, (after history).get? powHash = some work ↔
      work.powHash = powHash ∧ Claimable history work := by
    intro history powHash work
    rw [(distinct_after history).get?_eq_some, mem_after]
  refine ⟨lookup, ?_, ?_, ?_⟩
  · intro history powHash
    simp only [← lookup, Option.eq_none_iff_forall_ne_some, not_exists, ne_eq]
  · intro history
    simp only [← mem_after]
    exact (distinct_after history).encard
  · intro settings shareDifficulty state template
    rcases Nat.eq_zero_or_pos shareDifficulty with rfl | positive
    · exact .inl ⟨rfl, rfl⟩
    · obtain ⟨work, made⟩ := Work.exists_ofTemplate_eq positive template
      refine .inr ⟨positive, work, made, ?_⟩
      simp only [Service.resume, Service.fetched, Service.remember, made]

end WorkPool

/-! ### Runs -/

/-- What a step of serving a miner does to the works: it inserts a template, or removes a work whose block the
node has accepted. -/
def Service.operation? (shareDifficulty : Nat) :
    (phase : Service.Phase) → (Service.await phase).Reply → Option WorkPool.Operation
  | .fetching, outcome =>
    match (outcome : Except Error BlockTemplate) with
    | .ok template => (Work.ofTemplate template shareDifficulty).toOption.map .insert
    | .error _ => none
  | .forwarding _ powHash, verdict =>
    match (verdict : Except Error Bool) with
    | .ok true => some (.remove powHash)
    | _ => none
  | _, _ => none

theorem Service.works_resume {settings : LedgerSettings} {shareDifficulty : Nat} (state : PoolState)
    (phase : Service.Phase) (reply : (Service.await phase).Reply) :
    (Service.resume settings shareDifficulty state phase reply).1.works =
      (Service.operation? shareDifficulty phase reply).elim state.works (·.apply state.works) := by
  cases phase with
  | fetching =>
      rcases reply with error | template
      · rfl
      · simp only [Service.resume, Service.fetched, Service.remember, Service.operation?]
        cases Work.ofTemplate template shareDifficulty <;> rfl
  | classifying share powHash => rfl
  | forwarding share powHash => rcases reply with error | _ | _ <;> rfl
  | keeping rotation =>
      simp only [Service.resume]
      split
      · rfl
      · exact Service.settle_works _ _
  | reporting rate id => rfl

namespace Pool

variable {settings : LedgerSettings} {shareDifficulty : Nat}
  {trace : List (program settings shareDifficulty).Event}
  {system : (program settings shareDifficulty).System}

def operation? (shareDifficulty : Nat) :
    (phase : Phase) → (await phase).Reply → Option WorkPool.Operation
  | .serving phase, reply => Service.operation? shareDifficulty phase reply
  | .tending _, _ => none

def Event.operation? : (program settings shareDifficulty).Event → Option WorkPool.Operation
  | .moved move => Pool.operation? shareDifficulty move.phase move.reply
  | _ => none

/-- What a run has done to the works. -/
def history (trace : List (program settings shareDifficulty).Event) : List WorkPool.Operation :=
  trace.filterMap Event.operation?

theorem works_resume (state : PoolState) (now : Instant) (phase : Phase) (reply : (await phase).Reply) :
    (resume settings shareDifficulty state now phase reply).1.works =
      (operation? shareDifficulty phase reply).elim state.works (·.apply state.works) := by
  cases phase with
  | serving phase => exact Service.works_resume state phase reply
  | tending phase => rfl

/-- The works of a pool are what its history has left. -/
theorem works_of_run (run : Program.Run trace system) :
    system.data.works = WorkPool.after (history trace) := by
  induction run with
  | start => rfl
  | @step trace system next event run step ih =>
      rw [history, Program.filterMap_concat, ← history]
      cases step with
      | arrive request now => simpa [Event.operation?] using ih
      | stop => simpa [Event.operation?] using ih
      | move move running data free told =>
          have works := @works_resume settings shareDifficulty move.data move.now move.phase move.reply
          rw [← data] at ih
          rw [ih] at works
          refine works.trans ?_
          rw [Event.operation?]
          cases operation? shareDifficulty move.phase move.reply with
          | none => simp
          | some operation => simp [WorkPool.after_concat]

/-- At any time in any run, a miner can hand in solutions for exactly the claimable works. -/
theorem get?_of_run (run : Program.Run trace system) {powHash : Hash256} {work : Work} :
    system.data.works.get? powHash = some work ↔
      work.powHash = powHash ∧ WorkPool.Claimable (history trace) work := by
  rw [works_of_run run, (WorkPool.distinct_after _).get?_eq_some, WorkPool.mem_after]

end Pool

end MiningPool
