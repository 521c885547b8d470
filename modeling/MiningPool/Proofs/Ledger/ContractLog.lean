/-
Module: MiningPool.Proofs.Ledger.ContractLog
Purpose: what the contract has accepted and the claims in the ledger.
Main exports: Ledger.acceptance?, Ledger.Logged, Ledger.logged_of_run, Ledger.log_of_run
-/
import MiningPool.Proofs.Ledger.Invariant

/-!
The contract keeps a log of the submissions that it has accepted. A submission is accepted in the same
step in which its claim is filed, so that the log and the filed claims grow together, one entry for every
claim number.
-/

namespace MiningPool.Ledger

variable {settings : LedgerSettings} {ledger after : Ledger}

/-- The submission in an exchange, if the contract has accepted it. -/
def accepted? : Exchange pool → Option (ClaimSummary × Hash256)
  | ⟨.submitClaim summary, .ok tx⟩ => some (summary, tx)
  | _ => none

/-- The submission that the contract accepts with an event, under the number of the open claim. -/
def acceptance? : (program settings).Event → Option Submission
  | .moved move =>
    (move.exchange?.bind accepted?).map fun (summary, tx) => ⟨move.data.current, tx, summary⟩
  | _ => none

/-- The claim of a submission has its summary, and its transaction until the claim is verified. -/
def Records (ledger : Ledger) (submission : Submission) : Prop :=
  ∃ slot, ledger.slots.get? submission.claimNumber = some slot ∧
    slot.claim.summary = .ok submission.summary ∧
    ∀ tx, slot.status = .submitted tx → submission.tx = tx

/-- The log has one entry for every filed claim. -/
structure Logged (ledger : Ledger) (log : List Submission) : Prop where
  numbers : log.map (·.claimNumber) = List.range ledger.current
  entries : ∀ submission ∈ log, ledger.Records submission

namespace Logged

variable {log : List Submission}

theorem claimNumber_eq (logged : ledger.Logged log) {number : Nat} {submission : Submission}
    (found : log[number]? = some submission) : submission.claimNumber = number := by
  have listed : (log.map (·.claimNumber))[number]? = some submission.claimNumber := by
    rw [List.getElem?_map, found]
    rfl
  rw [logged.numbers, List.getElem?_eq_some_iff] at listed
  obtain ⟨inside, same⟩ := listed
  rw [List.getElem_range] at same
  exact same.symm

theorem exists_entry (logged : ledger.Logged log) {number : Nat} (below : number < ledger.current) :
    ∃ submission, log[number]? = some submission := by
  have length : log.length = ledger.current := by
    simpa using congrArg List.length logged.numbers
  exact ⟨_, List.getElem?_eq_getElem (length ▸ below)⟩

theorem lt_current (logged : ledger.Logged log) {submission : Submission}
    (member : submission ∈ log) : submission.claimNumber < ledger.current := by
  have listed := List.mem_map_of_mem (f := (·.claimNumber)) member
  rw [logged.numbers] at listed
  exact List.mem_range.1 listed

theorem summaries (logged : ledger.Logged log) :
    log.map (fun submission => Except.ok submission.summary) =
      (List.range ledger.current).map fun number => (ledger.claimOf number).summary := by
  rw [← logged.numbers, List.map_map]
  refine List.map_congr_left ?_
  intro submission member
  obtain ⟨slot, found, summarized, _⟩ := logged.entries submission member
  show _ = (ledger.claimOf submission.claimNumber).summary
  rw [claimOf_eq found, summarized]

end Logged

/-! ### One step -/

theorem accepted?_eq_some {exchange : Exchange pool} {summary : ClaimSummary} {tx : Hash256}
    (accepted : accepted? exchange = some (summary, tx)) :
    exchange = ⟨PoolQuery.submitClaim summary, .ok tx⟩ := by
  unfold accepted? at accepted
  split at accepted
  · cases accepted
    rfl
  · cases accepted

/-- Without a change of the ledger, the contract has not accepted anything. -/
theorem bind_accepted?_eq_none {part : Part} {exchange : Option (Exchange pool)}
    (asked : ∀ answered ∈ exchange, part.query? = some answered.query)
    (refused : ∀ rotation retry tx, part = .rotation (.submitting rotation retry) →
      exchange ≠ some ⟨PoolQuery.submitClaim rotation.summary, .ok tx⟩) :
    exchange.bind accepted? = none := by
  cases acceptance : exchange.bind accepted? with
  | none => rfl
  | some answer =>
      obtain ⟨answered, rfl, accepted⟩ := Option.bind_eq_some_iff.1 acceptance
      have same := accepted?_eq_some accepted
      subst same
      obtain ⟨rotation, retry, rfl, summary⟩ := Part.of_query?_eq_submitClaim (asked _ rfl)
      exact absurd (by rw [summary]) (refused rotation retry answer.2 rfl)

/-- Filed claims keep what has been logged of them. -/
theorem Records.advance {submission : Submission} (records : ledger.Records submission)
    (wellFormed : ledger.WellFormed settings.shareThreshold)
    (below : submission.claimNumber < ledger.current) (advances : ledger.Advances after) :
    after.Records submission := by
  obtain ⟨slot, found, summarized, transaction⟩ := records
  obtain ⟨later, foundLater, status, same⟩ := advances.claims found
  have filed := (wellFormed.filed below found).status
  refine ⟨later, foundLater, same filed ▸ summarized, ?_⟩
  intro tx submitted
  rw [submitted] at status
  generalize before : slot.status = statusBefore at status
  cases status with
  | same => exact transaction tx before
  | submit => exact absurd before filed

theorem logged_of_change {part : Part} {exchange : Option (Exchange pool)} {log : List Submission}
    (wellFormed : ledger.WellFormed settings.shareThreshold) (sound : part.Sound settings ledger)
    (asked : ∀ answered ∈ exchange, part.query? = some answered.query)
    (logged : ledger.Logged log) (change : Part.Change settings ledger part exchange after) :
    after.Logged (log ++ ((exchange.bind accepted?).map fun (summary, tx) =>
      (⟨ledger.current, tx, summary⟩ : Submission)).toList) := by
  have advances := change.advances wellFormed sound
  have entries : ∀ submission ∈ log, after.Records submission := by
    intro submission member
    exact (logged.entries submission member).advance wellFormed (logged.lt_current member) advances
  cases change with
  | keep known refused =>
      rw [bind_accepted?_eq_none asked refused]
      simpa using logged
  | add new =>
      rw [Option.bind_none, Option.map_none, Option.toList_none, List.append_nil]
      refine ⟨?_, entries⟩
      rw [wellFormed.add_eq]
      exact logged.numbers
  | @accept rotation retry tx =>
      obtain ⟨number, claim, _, summarized⟩ := wellFormed.of_due_eq sound
      show (ledger.accept rotation tx).Logged (log ++ [⟨ledger.current, tx, rotation.summary⟩])
      refine ⟨?_, ?_⟩
      · rw [List.map_append, logged.numbers]
        show _ = List.range (rotation.number + 1)
        rw [number]
        exact List.range_succ.symm
      · intro submission member
        rcases List.mem_append.1 member with old | new
        · exact entries submission old
        · rw [List.mem_singleton.1 new]
          refine ⟨⟨rotation.claim, .submitted tx⟩, ?_, claim ▸ summarized, ?_⟩
          · show (ledger.accept rotation tx).slots.get? ledger.current = _
            rw [get?_accept, if_neg (by omega), if_pos number.symm]
          · rintro _ ⟨⟩
            rfl
  | verify =>
      rw [Option.bind_none, Option.map_none, Option.toList_none, List.append_nil]
      refine ⟨?_, entries⟩
      rw [current_verify]
      exact logged.numbers

/-! ### Runs -/

variable {trace : List (program settings).Event} {system : (program settings).System}

theorem logged_of_run (run : Program.Run trace system) :
    system.data.Logged (trace.filterMap acceptance?) := by
  induction run with
  | start => exact ⟨rfl, fun _ member => nomatch member⟩
  | @step trace system next event run step ih =>
      rw [Program.filterMap_concat]
      cases step with
      | arrive request now => simpa [acceptance?] using ih
      | stop => simpa [acceptance?] using ih
      | move move running data free told =>
          obtain ⟨wellFormed, sound⟩ := sound_of_run run
          have member := List.mem_of_getElem? running
          rw [← data] at ih wellFormed sound
          have asked : ∀ answered ∈ move.exchange?,
              (partOf move.call).query? = some answered.query :=
            fun answered ends => query?_of_answered ends
          exact logged_of_change wellFormed (sound _ member) asked ih (move_step move).change

/-- In every state of every run, the contract has accepted just the summaries of the claims before the
open one, in order and one for each; a submitted claim has the transaction of its acceptance; and whoever
submits a claim shows the summary of the open claim in the order of its counters. -/
theorem log_of_run (run : Program.Run trace system) :
    (trace.filterMap acceptance?).map (·.claimNumber) = List.range system.data.current ∧
      ((trace.filterMap acceptance?).map fun submission => Except.ok submission.summary) =
        (List.range system.data.current).map (fun number => (system.data.claimOf number).summary) ∧
      (∀ number tx, system.data.status? number = some (.submitted tx) →
        ((trace.filterMap acceptance?)[number]?).map (·.tx) = some tx) ∧
      ∀ call ∈ system.calls, ∀ summary, call.query? = some (.submitClaim summary) →
        system.data.openClaim.sorted.summary = .ok summary := by
  obtain ⟨wellFormed, sound⟩ := sound_of_run run
  have logged := logged_of_run run
  refine ⟨logged.numbers, logged.summaries, ?_, ?_⟩
  · intro number tx submitted
    obtain ⟨slot, found, status⟩ := Option.map_eq_some_iff.1 submitted
    have below := wellFormed.lt_current found (status ▸ ClaimStatus.noConfusion)
    obtain ⟨submission, entry⟩ := logged.exists_entry below
    obtain ⟨same, foundSame, _, transaction⟩ :=
      logged.entries submission (List.mem_of_getElem? entry)
    rw [logged.claimNumber_eq entry, found] at foundSame
    cases foundSame
    rw [entry, Option.map_some, transaction tx status]
  · intro call member summary asks
    rw [query?_eq] at asks
    obtain ⟨rotation, retry, part, rfl⟩ := Part.of_query?_eq_submitClaim asks
    have due := sound call member
    rw [part] at due
    exact (wellFormed.of_due_eq due).2.2.2

theorem log_of_busy_run :
    ∃ (trace : List (program busySettings).Event) (first second : ClaimSummary),
      Program.Run trace (busySystem first second) ∧
        (trace.filterMap acceptance?).map (·.claimNumber) = [0, 1] ∧
        ((trace.filterMap acceptance?).map fun submission => Except.ok submission.summary) =
          [(claimOfNonces [3, 5, 7]).summary, (claimOfNonces [5, 9]).summary] ∧
        ((trace.filterMap acceptance?)[0]?).map (·.tx) = some (.replicate 32 1) ∧
        ((trace.filterMap acceptance?)[1]?).map (·.tx) = some (.replicate 32 2) := by
  obtain ⟨first, second, _, _, serial⟩ := serial_busyCalls
  obtain ⟨trace, run⟩ := reachable_busySystem serial
  obtain ⟨numbers, summaries, transactions, _⟩ := log_of_run run
  exact ⟨trace, first, second, run, numbers, summaries, transactions 0 _ rfl, transactions 1 _ rfl⟩

end MiningPool.Ledger
