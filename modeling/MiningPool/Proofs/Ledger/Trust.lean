/-
Module: MiningPool.Proofs.Ledger.Trust
Purpose: with workable settings the ledger never comes to mistrust its own data.
Main exports: LedgerSettings.Workable, Error.Impossible, Ledger.FoundFlaw,
  Ledger.fatal_eq_false_of_rotated, Ledger.foundFlaw_of_audited, Ledger.foundFlaw_of_cycle,
  Ledger.not_impossible_of_ended
-/
import MiningPool.Proofs.Ledger.AuditFailure
import MiningPool.Proofs.Ledger.Completion

/-!
A fatal error says that local data can no longer be trusted. Claims and their trees never give rise to one:
a claim that is submitted has as many shares as the threshold asks for, so it can be summarized, and its
audited position is one of its own. What an audit can come upon is a dataset file that does not hold the
words it is asked for.
-/

namespace MiningPool

/-- Claims have at least one share, rounds take some time, and a fixed position lies within every claim. -/
structure LedgerSettings.Workable (settings : LedgerSettings) : Prop where
  shareThreshold : 1 ≤ settings.shareThreshold
  submitInterval : 0 < settings.submitInterval
  auditIndex : ∀ index ∈ settings.auditIndex, index < settings.shareThreshold

/-- The ledger contradicts itself, or a tree contradicts its branches. -/
def Error.Impossible : Error → Prop
  | .state _ => True
  | .tree (.outOfOrder _ _) => True
  | .tree (.notRegistered _) => True
  | .tree (.claimBranch _) => True
  | .tree (.datasetBranch _) => True
  | _ => False

theorem Error.Impossible.fatal {error : Error} (impossible : error.Impossible) :
    error.fatal = true := by
  unfold Impossible at impossible
  split at impossible
  · rfl
  · rfl
  · rfl
  · rfl
  · rfl
  · exact impossible.elim

theorem DatasetFlaw.not_impossible {positions : List Nat} {content : List UInt8} {error : Error}
    (flaw : DatasetFlaw positions content error) : ¬error.Impossible := by
  cases flaw with
  | insideMagic short => exact id
  | partialWord few begun cut => exact id
  | tooManyWords many => exact id
  | noWords => exact id
  | noWord asked outside => exact id

namespace Ledger

/-- All claims have fewer shares than positions of 32 bits can tell apart. -/
def Small (ledger : Ledger) : Prop := ∀ number, (ledger.claimOf number).size < 2 ^ (32 : Nat)

variable {settings : LedgerSettings} {trace : List (program settings).Event}
  {system next : (program settings).System} {move : (program settings).Move} {error : Error}

/-- If the step ends with a collaborator's error, that error is not a fatal one. The tasks in
which proofs are made are taken to run to their end, without a panic and without being cancelled, so that
they add no fatal error of their own. -/
def Harmless (move : (program settings).Move) : Prop :=
  ∀ query error, move.exchange? = some ⟨query, .error error⟩ → error.fatal = false

/-- The step reads a dataset file whose content has the flaw that the error tells; the words that are looked
up in it have been named for the audited share in the same audit. -/
def FoundFlaw (trace : List (program settings).Event) (move : (program settings).Move) (error : Error) :
    Prop :=
  ∃ target index audited indices path content early,
    partOf move.call = .audit (.proving target index (.dataset audited indices path)) ∧
      move.exchange? = some ⟨PoolQuery.fileContent path, .ok content⟩ ∧
      Told trace early move.caller target.number
        ⟨PoolQuery.verificationIndices audited.share, .ok indices⟩ ∧
      DatasetFlaw indices content error

/-- Taking in a share or looking at the open claim fails with the contract only. -/
theorem answered_of_rotated (workable : settings.Workable) (run : Program.Run trace system)
    (step : Program.Step system (.moved move) next) (before : system.data.Small)
    (after : next.data.Small) (failed : endedBy? move = some (.rotated (.error error))) :
    ∃ query, move.exchange? = some ⟨query, .error error⟩ := by
  obtain ⟨wellFormed, _⟩ := sound_of_run run
  cases step with
  | move move running data free told =>
      rw [← data] at wellFormed before
      have course := move_course move
      rw [failed] at course
      obtain ⟨phase, part, rotated⟩ := course.of_rotated
      have small : move.after.Small := after
      generalize move.exchange? = exchange at rotated ⊢
      generalize move.after = later at rotated small
      cases rotated with
      | look looked =>
          exact absurd looked (look_ne_error wellFormed workable.shareThreshold
            (Nat.le_of_lt (before _)) error)
      | add new added looked =>
          exact absurd looked (look_ne_error (wellFormed.add new) workable.shareThreshold
            (Nat.le_of_lt (small _)) error)
      | lose new lost =>
          rw [wellFormed.add_eq] at lost
          cases lost
      | refuse error => exact ⟨_, rfl⟩

/-- A picked claim has been submitted, so it has as many shares as the threshold asks for. -/
theorem WellFormed.le_size_of_target {ledger : Ledger} {threshold : Nat} {phase : Audit.Phase}
    {target : AuditTarget} (wellFormed : ledger.WellFormed threshold) (sound : phase.Sound ledger)
    (picked : target ∈ phase.target?) : threshold ≤ target.claim.size := by
  have submitted := sound.target target picked
  have below := wellFormed.lt_current submitted ClaimStatus.noConfusion
  exact (wellFormed.filed below submitted).size

/-- An audit fails with a collaborator, with the wait for a transaction, or with a flaw of the dataset. -/
theorem of_audited (workable : settings.Workable) (run : Program.Run trace system)
    (step : Program.Step system (.moved move) next) (small : system.data.Small)
    (failed : endedBy? move = some (.audited (.error error))) :
    (∃ query, move.exchange? = some ⟨query, .error error⟩) ∨
      (∃ tx, error = .unconfirmed tx ∨ error = .interrupted tx) ∨ FoundFlaw trace move error := by
  obtain ⟨wellFormed, sound⟩ := sound_of_run run
  cases step with
  | move move running data free told =>
      have soundCall := sound _ (List.mem_of_getElem? running)
      have named := named_of_run run _ _ running
      obtain ⟨phase, reply, part, answered, resumed⟩ := resume_of_audited failed
      rw [part] at soundCall named
      have filed : ∀ target ∈ phase.target?, settings.shareThreshold ≤ target.claim.size :=
        fun target picked => wellFormed.le_size_of_target soundCall picked
      have few : ∀ target ∈ phase.target?, target.claim.size ≤ 2 ^ (32 : Nat) := by
        intro target picked
        have size := small target.number
        rw [claimOf_eq (soundCall.target target picked)] at size
        exact Nat.le_of_lt size
      have nonempty : ∀ target ∈ phase.target?, 0 < target.claim.size := by
        intro target picked
        exact Nat.lt_of_lt_of_le workable.shareThreshold (filed target picked)
      have inside : ∀ target ∈ phase.target?, ∀ index ∈ settings.auditIndex,
          index < target.claim.size := by
        intro target picked index fixed
        exact Nat.lt_of_lt_of_le (workable.auditIndex index fixed) (filed target picked)
      have failure := Audit.resume_failure resumed
      rw [← answered] at failure
      rcases failure.of_inside soundCall.proven nonempty inside few with
        asked | gaveUp | ⟨target, index, audited, indices, path, content, rfl, read, flaw⟩
      · exact .inl asked
      · exact .inr (.inl gaveUp)
      · obtain ⟨early, shown⟩ := named
        exact .inr (.inr ⟨target, index, audited, indices, path, content, early, part, read, shown,
          flaw⟩)

/-- After a failed round, a cycle ends with an error only if that is a fatal one. -/
theorem of_settle_eq_error {ticker : Ticker} {failure : Error}
    (settled : (Cycle.settle ticker failure).map Phase.cycling Result.ended =
      .inr (.ended (.error error))) : failure = error ∧ error.fatal = true := by
  rw [Cycle.settle] at settled
  split at settled
  · cases settled
  · split at settled
    · rename_i fatal
      cases settled
      exact ⟨rfl, fatal⟩
    · cases settled

/-- A cycle ends with the fatal error of a round. -/
theorem of_cycle_eq_error (told : move.next.stage = .inr (.ended (.error error))) :
    error.fatal = true ∧ (endedBy? move = some (.rotated (.error error)) ∨
      endedBy? move = some (.audited (.error error))) := by
  obtain ⟨caller, request, phase, data, now, reply⟩ := move
  change (resume settings data now phase reply).2 = .inr (.ended (.error error)) at told
  simp only [endedBy?]
  cases phase with
  | rotating phase =>
      obtain ⟨_, _, other⟩ := exists_of_map_eq_inr told
      cases other
  | auditing phase =>
      obtain ⟨_, _, other⟩ := exists_of_map_eq_inr told
      cases other
  | cycling phase =>
      simp only [resume] at told
      cases phase with
      | waiting ticker => cases reply <;> cases told
      | rotating ticker phase =>
          simp only [Cycle.resume] at told
          simp only [ended?]
          generalize Rotation.resume settings data phase reply = result at told ⊢
          obtain ⟨after, next | failure | outcome⟩ := result
          · cases told
          · obtain ⟨rfl, fatal⟩ := of_settle_eq_error told
            exact ⟨fatal, .inl rfl⟩
          · cases told
      | auditing ticker phase =>
          simp only [Cycle.resume] at told
          simp only [ended?]
          generalize Audit.resume settings data now phase reply = result at told ⊢
          obtain ⟨after, next | failure | outcome⟩ := result
          · cases told
          · obtain ⟨rfl, fatal⟩ := of_settle_eq_error told
            exact ⟨fatal, .inr rfl⟩
          · cases told

section

variable (workable : settings.Workable) (run : Program.Run trace system)
  (step : Program.Step system (.moved move) next) (before : system.data.Small)
  (after : next.data.Small) (harmless : Harmless move)

include workable run step before harmless

include after in
theorem fatal_eq_false_of_rotated (failed : endedBy? move = some (.rotated (.error error))) :
    error.fatal = false := by
  obtain ⟨query, answered⟩ := answered_of_rotated workable run step before after failed
  exact harmless query error answered

theorem foundFlaw_of_audited (failed : endedBy? move = some (.audited (.error error)))
    (fatal : error.fatal = true) : FoundFlaw trace move error := by
  rcases of_audited workable run step before failed with
    ⟨query, answered⟩ | ⟨tx, rfl | rfl⟩ | found
  · rw [harmless query error answered] at fatal
    cases fatal
  · cases fatal
  · cases fatal
  · exact found

include after in
/-- A cycle ends with an error only for a flaw of a dataset. -/
theorem foundFlaw_of_cycle (told : move.next.stage = .inr (.ended (.error error))) :
    FoundFlaw trace move error := by
  obtain ⟨fatal, rotated | audited⟩ := of_cycle_eq_error told
  · rw [fatal_eq_false_of_rotated workable run step before after harmless rotated] at fatal
    cases fatal
  · exact foundFlaw_of_audited workable run step before harmless audited fatal

include after in
theorem not_impossible_of_ended (failed : endedBy? move = some (.rotated (.error error)) ∨
    endedBy? move = some (.audited (.error error))) : ¬error.Impossible := by
  intro impossible
  rcases failed with rotated | audited
  · have fine := fatal_eq_false_of_rotated workable run step before after harmless rotated
    rw [impossible.fatal] at fine
    cases fine
  · obtain ⟨_, _, _, _, _, _, _, _, _, _, flaw⟩ :=
      foundFlaw_of_audited workable run step before harmless audited impossible.fatal
    exact flaw.not_impossible impossible

end

/-! ### A claim of one share -/

theorem small_onlySubmitted (share : Share) (tx : Hash256) : (onlySubmitted share tx).Small := by
  intro number
  rw [claimOf, onlySubmitted, get?_accept]
  split
  · exact Nat.two_pow_pos 32
  · split
    · exact Nat.one_lt_two_pow (Nat.succ_ne_zero 31)
    · rename_i other
      have slots : (fresh.add share).1.slots = [(0, ⟨⟨[share]⟩, .collecting⟩)] := rfl
      have different : 0 ≠ number := fun same => other same.symm
      have none : (fresh.add share).1.slots.get? number = none := by
        rw [slots, Slots.get?_cons, if_neg different]
        rfl
      rw [none]
      exact Nat.two_pow_pos 32

end Ledger

end MiningPool
