/-
Module: MiningPool.Proofs.Ledger.OldestFirst
Purpose: audits of the claim with the lowest number verify one claim after the other.
Main exports: Ledger.Part.Lowest, Ledger.lowest_of_run, Ledger.verified_iff_of_step,
  Ledger.verified_prefix_of_run
-/
import MiningPool.Proofs.Ledger.Confirmations

/-!
The oldest claim that waits for its audit has only verified claims before it. That does not change while it
is audited: verified claims stay verified, and claims that are submitted meanwhile get greater numbers. So
the next verification is always that of the first claim that has none.
-/

namespace MiningPool.Ledger

variable {settings : LedgerSettings} {ledger after : Ledger}
  {trace : List (program settings).Event} {system : (program settings).System}

/-! ### The picked claim -/

/-- All claims before the oldest one that waits for its audit are verified. -/
theorem WellFormed.verified_of_lt_target {threshold : Nat} (wellFormed : ledger.WellFormed threshold)
    {target : AuditTarget} (targeted : ledger.auditTarget? .oldestUnverified = some target)
    {number : Nat} (lower : number < target.number) : ledger.Verified number := by
  have submitted := wellFormed.of_auditTarget?_eq targeted
  have below : number < ledger.current :=
    Nat.lt_trans lower (wellFormed.lt_current submitted ClaimStatus.noConfusion)
  obtain ⟨slot, found, filed⟩ := wellFormed.exists_filed below
  rw [auditTarget?, List.findSome?_eq_some_iff] at targeted
  obtain ⟨before, ⟨picked, pickedSlot⟩, rest, split, awaiting, passed⟩ := targeted
  have isPicked : picked = target.number := (awaitingAudit?_eq_some awaiting).1
  -- The slots ascend, so that the pick has come by this one.
  have member : (number, slot) ∈ before := by
    have ascending := wellFormed.ascending
    have inSlots := Slots.mem_of_get?_eq_some found
    rw [split] at ascending inSlots
    rcases List.mem_append.1 inSlots with early | late
    · exact early
    · obtain ⟨above, _⟩ := List.pairwise_cons.1 (List.pairwise_append.1 ascending).2.1
      rcases List.mem_cons.1 late with same | later
      · cases same
        omega
      · have beyond : picked < number := above _ later
        omega
  have notAwaiting : awaitingAudit? number slot = none := passed _ member
  rcases slot with ⟨claim, status⟩
  cases status with
  | collecting => exact absurd rfl filed.status
  | submitted tx => cases notAwaiting
  | verified tx => exact ⟨_, tx, found, rfl⟩

/-- The claim that an activity audits. -/
def Part.target? : Part → Option AuditTarget
  | audit phase => phase.target?
  | _ => none

/-- All claims before the one that is audited are verified. -/
def Part.Lowest (ledger : Ledger) (part : Part) : Prop :=
  ∀ target ∈ part.target?, ∀ number, number < target.number → ledger.Verified number

theorem Part.Lowest.advance {part : Part} (lowest : part.Lowest ledger)
    (advances : ledger.Advances after) : part.Lowest after := by
  intro target picked number lower
  exact (lowest target picked number lower).advance advances

variable {part next : Part} {exchange : Option (Exchange pool)}

theorem Part.Step.lowest (oldest : settings.auditPolicy = .oldestUnverified)
    (wellFormed : ledger.WellFormed settings.shareThreshold) (sound : part.Sound settings ledger)
    (lowest : part.Lowest ledger) (step : Part.Step settings ledger part exchange after next) :
    next.Lowest after := by
  have advances := step.change.advances wellFormed sound
  cases step with
  | rest => exact lowest
  | begin => simp [Lowest, target?]
  | rotation step => simp [Lowest, target?]
  | rotated step goesOn => rcases goesOn with rfl | rfl <;> simp [Lowest, target?, Audit.Phase.target?]
  | audited step => simp [Lowest, target?]
  | audit step =>
      have kept := lowest.advance advances
      cases step with
      | enter => simp [Lowest, target?, Audit.Phase.target?]
      | @pick target watch targeted =>
          rw [oldest] at targeted
          rintro _ ⟨⟩ number lower
          exact wellFormed.verified_of_lt_target targeted lower
      | awaitClaim => exact kept
      | confirmClaim chosen =>
          have same := (Audit.choose_eq_inl chosen).1
          intro target picked
          rw [target?, same] at picked
          exact kept target picked
      | awaitSeed => exact kept
      | seed seed begun =>
          have same := (Audit.prove_eq_inl begun).1
          intro target picked
          rw [target?, same] at picked
          exact kept target picked
      | gather same => exact kept
      | prove dataset assembled => exact kept
      | awaitVerdict failed => exact kept
      | accept tx => exact kept
      | awaitProof => exact kept
      | confirmProof => exact kept

theorem lowest_invariant (oldest : settings.auditPolicy = .oldestUnverified) :
    Program.Invariant (program settings) (WellFormed settings.shareThreshold)
      fun ledger call => (partOf call).Sound settings ledger ∧ (partOf call).Lowest ledger where
  initial := .fresh
  arrive := by
    intro ledger request now wellFormed
    constructor
    · exact (program_invariant settings).arrive request now wellFormed
    · rintro target picked
      cases request <;> cases picked
  own := by
    rintro move wellFormed ⟨sound, lowest⟩
    obtain ⟨wellFormedAfter, soundAfter⟩ := (program_invariant settings).own move wellFormed sound
    exact ⟨wellFormedAfter, soundAfter, (move_step move).lowest oldest wellFormed sound lowest⟩
  others := by
    rintro move other wellFormed ⟨sound, _⟩ ⟨otherSound, lowest⟩ apart
    constructor
    · exact (program_invariant settings).others move other wellFormed sound otherSound apart
    · exact lowest.advance ((move_step move).change.advances wellFormed sound)

/-- While an audit is under way, all claims before its claim are verified. -/
theorem lowest_of_run (oldest : settings.auditPolicy = .oldestUnverified)
    (run : Program.Run trace system) :
    ∀ call ∈ system.calls, (partOf call).Lowest system.data := by
  intro call member
  exact ((run.invariant (lowest_invariant oldest)).2 call member).2

/-! ### One verification after the other -/

theorem verified_iff {number : Nat} :
    ledger.Verified number ↔ ∃ tx, ledger.status? number = some (.verified tx) := by
  constructor
  · rintro ⟨slot, tx, found, status⟩
    exact ⟨tx, by rw [status?, found, Option.map_some, status]⟩
  · rintro ⟨tx, same⟩
    obtain ⟨slot, found, status⟩ := Option.map_eq_some_iff.1 same
    exact ⟨slot, tx, found, status⟩

/-- With a step exactly the claims are verified that have been so before and the one that the step
verifies. -/
theorem verified_iff_of_step (run : Program.Run trace system) {event : (program settings).Event}
    {next : (program settings).System} (step : Program.Step system event next) {number : Nat} :
    next.data.Verified number ↔ system.data.Verified number ∨
      ∃ verification, verification? event = some verification ∧
        verification.claimNumber = number := by
  constructor
  · intro verified
    cases step with
    | arrive request now => exact .inl verified
    | stop => exact .inl verified
    | move move running data free told =>
        obtain ⟨wellFormed, sound⟩ := sound_of_run run
        have soundCall := sound _ (List.mem_of_getElem? running)
        rw [← data] at wellFormed soundCall ⊢
        obtain ⟨tx, status⟩ := verified_iff.1 verified
        rcases (move_step move).change.of_verified wellFormed soundCall status with
          before | ⟨target, index, part, rfl⟩
        · exact .inl (verified_iff.2 ⟨tx, before⟩)
        · exact .inr ⟨_, verification?_of_recording part, rfl⟩
  · rintro (before | ⟨verification, verifies, rfl⟩)
    · exact before.advance (advances_of_step run step)
    · exact (verified_of_verification? run step verifies).2

/-- The audit that succeeds has only verified claims before its own. -/
theorem lowest_of_verification? (oldest : settings.auditPolicy = .oldestUnverified)
    (run : Program.Run trace system) {event : (program settings).Event}
    {next : (program settings).System} (step : Program.Step system event next)
    {verification : Verification} (verifies : verification? event = some verification) :
    ∀ number, number < verification.claimNumber → system.data.Verified number := by
  cases step with
  | arrive request now => cases verifies
  | stop => cases verifies
  | move move running data free told =>
      have lowest := lowest_of_run oldest run _ (List.mem_of_getElem? running)
      have course := move_course move
      rw [endedBy?_of_verification? verifies] at course
      obtain ⟨phase, part, audited⟩ := course.of_audited
      obtain ⟨target, index, tx, rfl, _, rfl⟩ := audited.of_verified
      rw [part] at lowest
      exact lowest target rfl

theorem WellFormed.le_current_of_verified {threshold : Nat} (wellFormed : ledger.WellFormed threshold)
    {bound : Nat} (verified : ∀ number, number < bound → ledger.Verified number) :
    bound ≤ ledger.current := by
  by_contra beyond
  obtain ⟨slot, tx, found, status⟩ := verified ledger.current (Nat.lt_of_not_le beyond)
  rw [wellFormed.collecting] at found
  cases found
  cases status

/-- The claims below the bound, and no others, have been verified, each after the ones before it. -/
theorem verified_range_of_run (oldest : settings.auditPolicy = .oldestUnverified)
    (run : Program.Run trace system) :
    ∃ bound, (∀ number, system.data.Verified number ↔ number < bound) ∧
      (trace.filterMap verification?).map (·.claimNumber) = List.range bound := by
  induction run with
  | start =>
      refine ⟨0, ?_, rfl⟩
      intro number
      constructor
      · rintro ⟨slot, tx, found, status⟩
        have only := Slots.mem_of_get?_eq_some found
        cases List.mem_singleton.1 only
        cases status
      · intro below
        exact absurd below (Nat.not_lt_zero number)
  | @step trace system next event run step ih =>
      obtain ⟨bound, verified, recorded⟩ := ih
      rw [Program.filterMap_concat, List.map_append, recorded]
      cases verifies : verification? event with
      | none =>
          refine ⟨bound, ?_, by simp⟩
          intro number
          rw [verified_iff_of_step run step, verifies, verified number]
          simp
      | some verification =>
          obtain ⟨notBefore, _⟩ := verified_of_verification? run step verifies
          have lower := lowest_of_verification? oldest run step verifies
          have isBound : verification.claimNumber = bound := by
            apply Nat.le_antisymm
            · by_contra beyond
              exact absurd ((verified bound).1 (lower bound (Nat.lt_of_not_le beyond)))
                (Nat.lt_irrefl bound)
            · exact Nat.le_of_not_lt fun below => notBefore ((verified _).2 below)
          refine ⟨bound + 1, ?_, by simp [isBound, List.range_succ]⟩
          intro number
          rw [verified_iff_of_step run step, verifies, verified number, Nat.lt_succ_iff_lt_or_eq]
          simp [isBound, eq_comm]

/-- If the oldest claims are audited first, the verified claims have no gap in any state of any run, and
they have been verified in the order of their numbers. -/
theorem verified_prefix_of_run (oldest : settings.auditPolicy = .oldestUnverified)
    (run : Program.Run trace system) :
    ∃ bound, bound ≤ system.data.current ∧
      (∀ number, system.data.Verified number ↔ number < bound) ∧
      (trace.filterMap verification?).map (·.claimNumber) = List.range bound := by
  obtain ⟨bound, verified, recorded⟩ := verified_range_of_run oldest run
  refine ⟨bound, ?_, verified, recorded⟩
  apply (sound_of_run run).1.le_current_of_verified
  intro number below
  exact (verified number).2 below

/-- Of two claims that have been submitted, the first one is verified. -/
theorem verified_prefix_of_busy_run :
    ∃ (trace : List (program busySettings).Event) (system : (program busySettings).System),
      Program.Run trace system ∧ system.data.current = 2 ∧ system.data.Verified 0 ∧
        ¬system.data.Verified 1 ∧ system.data.status? 1 = some (.submitted (.replicate 32 2)) ∧
        ∃ bound, bound ≤ system.data.current ∧
          (∀ number, system.data.Verified number ↔ number < bound) ∧
          (trace.filterMap verification?).map (·.claimNumber) = List.range bound := by
  obtain ⟨first, second, _, _, serial⟩ := serial_busyCalls
  obtain ⟨audited, selected, _⟩ := exists_select_busyTarget
  obtain ⟨content, proof, finished, _⟩ := exists_finish_busyTarget selected
  have shows := Program.reachableAfter_nil.2 (reachable_busyAudit serial selected finished)
  obtain ⟨trace, run⟩ := reachableAfter_verified serial.idle shows (.replicate 32 3)
  have verified : (busyLedger.verify 0 (.replicate 32 3)).Verified 0 :=
    ⟨_, .replicate 32 3, rfl, rfl⟩
  have submitted : (busyLedger.verify 0 (.replicate 32 3)).slots.get? 1 =
      some ⟨claimOfNonces [5, 9], .submitted (.replicate 32 2)⟩ := rfl
  exact ⟨trace, _, run, rfl, verified, not_verified_of_submitted submitted, rfl,
    verified_prefix_of_run rfl run⟩

end MiningPool.Ledger
