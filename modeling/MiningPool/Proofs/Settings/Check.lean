/-
Module: MiningPool.Proofs.Settings.Check
Purpose: settings that pass the check give a ledger that never mistrusts its own data.
Main exports: Settings.of_check_eq_ok, Settings.exists_workable, Settings.trusted_of_check
-/
import MiningPool.Proofs.Ledger.Trust
import MiningPool.Settings.Meaning

/-!
The check refuses claims without shares, positions outside of the claims, and rounds that take no time. With
what is left, a fatal error has its cause outside of the ledger: a collaborator has reported it, or a
dataset file does not hold what an audit looks up in it.
-/

namespace MiningPool.Settings

variable {settings : Settings} {home : Option String} {ledgerSettings : LedgerSettings}

theorem of_ledger_eq_ok (made : settings.ledger home = .ok ledgerSettings) :
    ledgerSettings.shareThreshold = settings.shareThreshold ∧
      ledgerSettings.auditIndex = settings.auditPosition ∧
      settings.submitInterval = .ok ledgerSettings.submitInterval := by
  rw [ledger] at made
  cases interval : settings.submitInterval with
  | error fault =>
      rw [interval] at made
      cases made
  | ok duration =>
      rw [interval] at made
      cases made
      exact ⟨rfl, rfl, rfl⟩

theorem lt_of_checkAuditPosition (checked : settings.checkAuditPosition = .ok ()) :
    ∀ index ∈ settings.auditPosition, index < settings.shareThreshold := by
  intro index fixed
  rw [checkAuditPosition, fixed] at checked
  by_contra outside
  simp [outside] at checked

/-- What the check makes sure of. -/
theorem of_check_eq_ok (checked : settings.check = .ok ()) :
    0 < settings.shareThreshold ∧ (∀ index ∈ settings.auditPosition, index < settings.shareThreshold) ∧
      ∃ interval, settings.submitInterval = .ok interval ∧ 0 < interval := by
  rw [check] at checked
  split at checked
  · cases checked
  rename_i threshold
  split at checked
  · cases checked
  cases position : settings.checkAuditPosition with
  | error fault =>
      rw [position] at checked
      cases checked
  | ok _ =>
      cases parsed : settings.submitInterval with
      | error fault =>
          rw [position, parsed] at checked
          cases checked
      | ok interval =>
          rw [position, parsed] at checked
          refine ⟨Nat.pos_of_ne_zero threshold, lt_of_checkAuditPosition position, interval, rfl, ?_⟩
          by_contra notPositive
          have zero : interval = 0 := Nat.eq_zero_of_not_pos notPositive
          rw [zero] at checked
          cases checked

/-- Settings that pass the check give a ledger, and its settings are workable. -/
theorem exists_workable (checked : settings.check = .ok ()) (home : Option String) :
    ∃ ledgerSettings, settings.ledger home = .ok ledgerSettings ∧ ledgerSettings.Workable := by
  obtain ⟨threshold, position, interval, parsed, positive⟩ := of_check_eq_ok checked
  obtain ⟨ledgerSettings, made⟩ : ∃ ledgerSettings, settings.ledger home = .ok ledgerSettings := by
    rw [ledger, parsed]
    exact ⟨_, rfl⟩
  obtain ⟨sameThreshold, samePosition, sameInterval⟩ := of_ledger_eq_ok made
  refine ⟨ledgerSettings, made, ?_, ?_, ?_⟩
  · rw [sameThreshold]
    exact threshold
  · rw [parsed] at sameInterval
    cases sameInterval
    exact positive
  · rw [samePosition, sameThreshold]
    exact position

/-- Settings that pass the check give a ledger whose claims have at least one share, whose rounds take some
time, and whose fixed position lies within every claim. In all its runs, as long as claims have fewer than
2³² shares and no collaborator reports a fatal error, a share is never taken in and a claim never submitted
with a fatal error, and an audit fails fatally only for a flaw of the dataset that the named words are
looked up in, so that a cycle ends with an error for nothing else. The ledger and its trees never contradict
themselves. -/
theorem trusted_of_check (checked : settings.check = .ok ()) (home : Option String) :
    ∃ ledgerSettings, settings.ledger home = .ok ledgerSettings ∧ ledgerSettings.Workable ∧
      ∀ (trace : List (Ledger.program ledgerSettings).Event)
        (system next : (Ledger.program ledgerSettings).System)
        (move : (Ledger.program ledgerSettings).Move),
        Program.Run trace system → Program.Step system (.moved move) next →
          system.data.Small → next.data.Small → Ledger.Harmless move →
            (∀ error, Ledger.endedBy? move = some (.rotated (.error error)) → error.fatal = false) ∧
            (∀ error, Ledger.endedBy? move = some (.audited (.error error)) → error.fatal = true →
              Ledger.FoundFlaw trace move error) ∧
            (∀ error, move.next.stage = .inr (.ended (.error error)) →
              Ledger.FoundFlaw trace move error) ∧
            ∀ error, (Ledger.endedBy? move = some (.rotated (.error error)) ∨
              Ledger.endedBy? move = some (.audited (.error error))) → ¬error.Impossible := by
  obtain ⟨ledgerSettings, made, workable⟩ := exists_workable checked home
  refine ⟨ledgerSettings, made, workable, ?_⟩
  intro trace system next move run step before after harmless
  refine ⟨?_, ?_, ?_, ?_⟩
  · intro error
    exact Ledger.fatal_eq_false_of_rotated workable run step before after harmless
  · intro error
    exact Ledger.foundFlaw_of_audited workable run step before harmless
  · intro error
    exact Ledger.foundFlaw_of_cycle workable run step before after harmless
  · intro error
    exact Ledger.not_impossible_of_ended workable run step before after harmless

/-- Claims of one share whose only share is audited. -/
def singleShare : Settings :=
  ofGiven ((GivenSettings.empty.set .shareThreshold (1 : Nat)).set .auditIndex (some (0 : Nat)))

theorem check_singleShare : singleShare.check = .ok () := by
  have position : singleShare.checkAuditPosition = .ok () := rfl
  have interval : singleShare.submitInterval = .ok (Duration.ofSeconds 60) := rfl
  have interface : (IpAddress.parse? singleShare.rpcInterface).isNone = false := rfl
  rw [check, position, interval, interface]
  rfl

open Ledger in
/-- An empty dataset file ends an audit with the fault that it has. -/
theorem trusted_of_check_singleShare :
    singleShare.check = .ok () ∧ ∃ ledgerSettings, singleShare.ledger none = .ok ledgerSettings ∧
      ledgerSettings.Workable ∧
      ∃ (trace : List (program ledgerSettings).Event) (system next : (program ledgerSettings).System)
        (move : (program ledgerSettings).Move),
        Program.Run trace system ∧ Program.Step system (.moved move) next ∧ system.data.Small ∧
          next.data.Small ∧ Harmless move ∧
          endedBy? move = some (.audited (.error (.dataset (.insideMagic 0)))) ∧
          FoundFlaw trace move (.dataset (.insideMagic 0)) := by
  refine ⟨check_singleShare, ?_⟩
  obtain ⟨ledgerSettings, made, workable, trusted⟩ := trusted_of_check check_singleShare none
  refine ⟨ledgerSettings, made, workable, ?_⟩
  obtain ⟨threshold, position, _⟩ := of_ledger_eq_ok made
  have single : ledgerSettings.shareThreshold ≤ 1 := Nat.le_of_eq threshold
  have first : ledgerSettings.auditIndex = some 0 := position
  obtain ⟨trace, run⟩ := reachable_onlyReading ledgerSettings single first plainShare (.zero 32) []
  let system : (program ledgerSettings).System :=
    ⟨onlySubmitted plainShare (.zero 32), [onlyCall ledgerSettings plainShare (.zero 32),
      onlyReading ledgerSettings plainShare (.zero 32) []], false⟩
  let move : (program ledgerSettings).Move :=
    ⟨1, .verify, .auditing (.proving (onlyTarget plainShare (.zero 32)) 0
      (.dataset ⟨plainShare, 0, onlyTree plainShare⟩ [] (ledgerSettings.datasets.pathFor (.zero 32)))),
      onlySubmitted plainShare (.zero 32), 0, .ok []⟩
  have step := Program.Step.move system move rfl rfl (fun _ taken => (List.not_mem_nil taken).elim)
    (fun cancelled => cancelled.elim)
  have small : (onlySubmitted plainShare (.zero 32)).Small := small_onlySubmitted plainShare (.zero 32)
  have harmless : Harmless move := by
    intro query error answered
    cases answered
  have ends : endedBy? move = some (.audited (.error (.dataset (.insideMagic 0)))) := rfl
  obtain ⟨_, audited, _, _⟩ := trusted _ _ _ _ run step small small harmless
  exact ⟨_, _, _, _, run, step, small, small, harmless, ends, audited _ ends rfl⟩

end MiningPool.Settings
