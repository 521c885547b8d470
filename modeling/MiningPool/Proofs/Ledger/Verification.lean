/-
Module: MiningPool.Proofs.Ledger.Verification
Purpose: a claim is verified at most once.
Main exports: Ledger.verification?, Ledger.proofAcceptance?, Ledger.lostWait?,
  Ledger.verifications_of_run, Ledger.pursued_of_run, Ledger.verified_once_of_run
-/
import MiningPool.Proofs.Ledger.AuditedProof
import MiningPool.Proofs.Ledger.Operation

/-!
Audits pick a claim in one step and record its verification in another one, with many steps of others in
between. Because an audit keeps the right to audit, the picked claim is still submitted when the audit
comes back to it; so an audit that shows a proof is one whose claim has not been verified. A proof that has
been accepted is pursued by its audit until the claim is verified or the wait for the transaction fails.
-/

namespace MiningPool.Ledger

variable {settings : LedgerSettings} {ledger after : Ledger}

/-! ### What happens to proofs -/

/-- The transaction with which the contract has accepted a proof. -/
def provenBy? : Exchange pool → Option Hash256
  | ⟨.verifyClaim _, .ok tx⟩ => some tx
  | _ => none

/-- A proof that the contract has accepted: the call, the number of its claim, and the transaction. -/
structure AcceptedProof where
  caller : Nat
  claimNumber : Nat
  tx : Hash256
deriving DecidableEq

/-- The proof that the contract accepts with an event. -/
def proofAcceptance? : (program settings).Event → Option AcceptedProof
  | .moved move =>
    (audited? move.call).bind fun number =>
      (move.exchange?.bind provenBy?).map fun tx => ⟨move.caller, number, tx⟩
  | _ => none

/-- The accepted proof for whose transaction the wait fails with an event. -/
def lostWait? : (program settings).Event → Option AcceptedProof
  | .moved move =>
    match partOf move.call, endedBy? move with
    | .audit (.confirmingProof target _ tx _), some (.audited (.error _)) =>
      some ⟨move.caller, target.number, tx⟩
    | _, _ => none
  | _ => none

/-- The verification with which an audit succeeds. -/
def verification? : (program settings).Event → Option Verification
  | .moved move =>
    match endedBy? move with
    | some (.audited (.ok verification)) => verification
    | _ => none
  | _ => none

/-- The claim has been verified. -/
def Verified (ledger : Ledger) (number : Nat) : Prop :=
  ∃ slot tx, ledger.slots.get? number = some slot ∧ slot.status = .verified tx

theorem Verified.advance {number : Nat} (verified : ledger.Verified number)
    (advances : ledger.Advances after) : after.Verified number := by
  obtain ⟨slot, tx, found, status⟩ := verified
  obtain ⟨later, foundLater, advanced, _⟩ := advances.claims found
  rw [status] at advanced
  refine ⟨later, tx, foundLater, ?_⟩
  generalize later.status = laterStatus at advanced
  cases advanced
  rfl

theorem verified_verify {number : Nat} {slot : Slot} (found : ledger.slots.get? number = some slot)
    (tx : Hash256) : (ledger.verify number tx).Verified number := by
  refine ⟨{ slot with status := .verified tx }, tx, ?_, rfl⟩
  rw [get?_verify, if_pos rfl, found]
  rfl

theorem not_verified_of_submitted {number : Nat} {claim : Claim} {tx : Hash256}
    (submitted : ledger.slots.get? number = some ⟨claim, .submitted tx⟩) :
    ¬ledger.Verified number := by
  rintro ⟨slot, proofTx, found, status⟩
  rw [submitted] at found
  cases found
  cases status

/-! ### One verification for a claim -/

variable {trace : List (program settings).Event} {system : (program settings).System}

theorem advances_of_step (run : Program.Run trace system) {event : (program settings).Event}
    {next : (program settings).System} (step : Program.Step system event next) :
    system.data.Advances next.data := by
  obtain ⟨wellFormed, sound⟩ := sound_of_run run
  cases step with
  | arrive request now => exact .refl _
  | stop => exact .refl _
  | move move running data free told =>
      rw [← data] at wellFormed sound ⊢
      exact (move_step move).change.advances wellFormed (sound _ (List.mem_of_getElem? running))

theorem endedBy?_of_verification? {move : (program settings).Move} {verification : Verification}
    (verifies : verification? (.moved move) = some verification) :
    endedBy? move = some (.audited (.ok (some verification))) := by
  simp only [verification?] at verifies
  split at verifies
  · rename_i found
    rw [found, verifies]
  · cases verifies

/-- A request that is told of a verification has been told so with an audit of its own. -/
theorem verification?_of_told {move : (program settings).Move} {verification : Verification}
    (told : move.next.stage = .inr (.audited (.ok (some verification)))) :
    verification? (.moved move) = some verification := by
  have ends := endedBy?_of_told told (.audited (.ok (some verification))) rfl
  rw [verification?, ends]

/-- The audit that succeeds has found its claim submitted and leaves it verified. -/
theorem verified_of_verification? (run : Program.Run trace system)
    {event : (program settings).Event} {next : (program settings).System}
    (step : Program.Step system event next) {verification : Verification}
    (verifies : verification? event = some verification) :
    ¬system.data.Verified verification.claimNumber ∧
      next.data.Verified verification.claimNumber := by
  obtain ⟨_, sound⟩ := sound_of_run run
  cases step with
  | arrive request now => cases verifies
  | stop => cases verifies
  | move move running data free told =>
      have soundCall := sound _ (List.mem_of_getElem? running)
      rw [← data] at soundCall ⊢
      have course := move_course move
      rw [endedBy?_of_verification? verifies] at course
      obtain ⟨phase, part, audited⟩ := course.of_audited
      obtain ⟨target, index, tx, rfl, verified, rfl⟩ := audited.of_verified
      rw [part] at soundCall
      have submitted := soundCall.target target rfl
      refine ⟨not_verified_of_submitted submitted, ?_⟩
      show move.after.Verified target.number
      rw [verified]
      exact verified_verify submitted tx

theorem verifications_of_run (run : Program.Run trace system) :
    ((trace.filterMap verification?).map (·.claimNumber)).Nodup ∧
      ∀ number ∈ (trace.filterMap verification?).map (·.claimNumber),
        system.data.Verified number := by
  induction run with
  | start => exact ⟨List.nodup_nil, fun _ member => nomatch member⟩
  | @step trace system next event run step ih =>
      obtain ⟨nodup, verified⟩ := ih
      have advances := advances_of_step run step
      rw [Program.filterMap_concat, List.map_append]
      cases verifies : verification? event with
      | none =>
          rw [Option.toList_none, List.map_nil, List.append_nil]
          exact ⟨nodup, fun number member => (verified number member).advance advances⟩
      | some verification =>
          obtain ⟨notBefore, now⟩ := verified_of_verification? run step verifies
          rw [Option.toList_some, List.map_singleton]
          constructor
          · rw [(List.perm_append_singleton _ _).nodup_iff, List.nodup_cons]
            exact ⟨fun member => notBefore (verified _ member), nodup⟩
          · intro number member
            rcases List.mem_append.1 member with old | new
            · exact (verified number old).advance advances
            · rw [List.mem_singleton.1 new]
              exact now

/-! ### Accepted proofs -/

/-- The call still waits for the transaction of the proof, or to record it. -/
inductive Pursues (proof : AcceptedProof) : Part → Prop where
  | confirming {target : AuditTarget} {index : Nat} {watch : Confirmation.Phase}
      (number : target.number = proof.claimNumber) :
      Pursues proof (.audit (.confirmingProof target index proof.tx watch))
  | recording {target : AuditTarget} {index : Nat} (number : target.number = proof.claimNumber) :
      Pursues proof (.audit (.recording target index proof.tx))

theorem provenBy?_eq_some {exchange : Exchange pool} {tx : Hash256}
    (proven : provenBy? exchange = some tx) :
    ∃ proof, exchange = ⟨PoolQuery.verifyClaim proof, .ok tx⟩ := by
  unfold provenBy? at proven
  split at proven
  · cases proven
    exact ⟨_, rfl⟩
  · cases proven

/-- The call waits for the transaction of the proof or goes on to record it, or the claim is verified. -/
def Pursued (system : (program settings).System) (proof : AcceptedProof) : Prop :=
  (∃ call, system.calls[proof.caller]? = some call ∧ Pursues proof (partOf call)) ∨
    system.data.Verified proof.claimNumber

/-- Whenever the contract accepts a proof, it is that of an audit of some claim. -/
theorem exists_proofAcceptance {move : (program settings).Move} {shown : VerificationProof}
    {tx : Hash256} (answered : move.exchange? = some ⟨PoolQuery.verifyClaim shown, .ok tx⟩) :
    ∃ number, audited? move.call = some number ∧
      proofAcceptance? (.moved move) = some ⟨move.caller, number, tx⟩ := by
  obtain ⟨target, index, retry, part⟩ :=
    Part.of_query?_eq_verifyClaim (query?_of_answered answered)
  have audits : audited? move.call = some target.number := by
    rw [audited?, part]
    rfl
  refine ⟨target.number, audits, ?_⟩
  rw [proofAcceptance?, audits, answered]
  rfl

/-- A proof is accepted from an audit that submits it and then waits for its transaction. -/
theorem of_proofAcceptance?_eq {move : (program settings).Move} {proof : AcceptedProof}
    (accepted : proofAcceptance? (.moved move) = some proof) :
    move.caller = proof.caller ∧ Pursues proof (partOf move.next) ∧
      ∃ target index shown retry, target.number = proof.claimNumber ∧
        partOf move.call = .audit (.submitting target index shown retry) := by
  obtain ⟨number, audits, accepted⟩ := Option.bind_eq_some_iff.1 accepted
  obtain ⟨tx, proven, rfl⟩ := Option.map_eq_some_iff.1 accepted
  obtain ⟨exchange, answered, proven⟩ := Option.bind_eq_some_iff.1 proven
  obtain ⟨shown, rfl⟩ := provenBy?_eq_some proven
  obtain ⟨target, index, retry, part⟩ :=
    Part.of_query?_eq_verifyClaim (query?_of_answered answered)
  rw [audited?, part] at audits
  cases audits
  refine ⟨rfl, ?_, target, index, shown, retry, rfl, part⟩
  have step := move_step move
  rw [part, answered] at step
  generalize move.after = after at step
  generalize partOf move.next = next at step ⊢
  cases step with
  | audit step =>
      cases step with
      | awaitVerdict failed =>
          obtain ⟨error, same⟩ := failed _ rfl
          cases same
      | accept tx => exact .confirming rfl
  | audited step =>
      cases step with
      | fail error unrecorded refused => exact absurd rfl (refused _ _ _ _ _ rfl)

/-- An audit pursues its proof until the wait for the transaction fails or the claim is verified. -/
theorem Pursues.course {proof : AcceptedProof} {part next : Part} {exchange : Option (Exchange pool)}
    {ended : Option Ended} (pursues : Pursues proof part) (sound : part.Sound settings ledger)
    (course : Part.Course settings ledger part exchange after next ended) :
    (∃ target index watch error, part = .audit (.confirmingProof target index proof.tx watch) ∧
        target.number = proof.claimNumber ∧ ended = some (.audited (.error error))) ∨
      Pursues proof next ∨ after.Verified proof.claimNumber := by
  cases pursues with
  | @confirming target index watch number =>
      cases course with
      | audit step =>
          cases step with
          | awaitProof => exact .inr (.inl (.confirming number))
          | confirmProof => exact .inr (.inl (.recording number))
      | audited step =>
          cases step with
          | fail error => exact .inl ⟨target, index, watch, error, rfl, number, rfl⟩
  | @recording target index number =>
      cases course with
      | audit step => cases step
      | audited step =>
          cases step with
          | record =>
              rw [← number]
              exact .inr (.inr (verified_verify (sound.target target rfl) _))
          | fail error unrecorded => exact absurd rfl (unrecorded _ _ _)

theorem pursued_of_accepted {event : (program settings).Event} {next : (program settings).System}
    (step : Program.Step system event next) {proof : AcceptedProof}
    (accepted : proofAcceptance? event = some proof) : Pursued next proof := by
  cases step with
  | arrive request now => cases accepted
  | stop => cases accepted
  | move move running data free told =>
      obtain ⟨caller, pursues, _⟩ := of_proofAcceptance?_eq accepted
      have inside : move.caller < system.calls.length := (List.getElem?_eq_some_iff.1 running).1
      refine .inl ⟨move.next, ?_, pursues⟩
      rw [← caller]
      exact List.getElem?_set_self inside

theorem pursued_step (run : Program.Run trace system) {proof : AcceptedProof}
    (pursued : Pursued system proof) {event : (program settings).Event}
    {next : (program settings).System} (step : Program.Step system event next) :
    lostWait? event = some proof ∨ Pursued next proof := by
  rcases pursued with ⟨call, called, pursues⟩ | verified
  · obtain ⟨_, sound⟩ := sound_of_run run
    cases step with
    | arrive request now =>
        have before : proof.caller < system.calls.length := (List.getElem?_eq_some_iff.1 called).1
        refine .inr (.inl ⟨call, ?_, pursues⟩)
        rw [← called]
        exact List.getElem?_append_left before
    | stop => exact .inr (.inl ⟨call, called, pursues⟩)
    | move move running data free told =>
        have inside : move.caller < system.calls.length := (List.getElem?_eq_some_iff.1 running).1
        by_cases own : move.caller = proof.caller
        · rw [own, called] at running
          cases running
          have soundCall := sound _ (List.mem_of_getElem? called)
          rw [← data] at soundCall
          rcases pursues.course soundCall (move_course move) with
            ⟨target, index, watch, error, part, number, ended⟩ | later | verified
          · left
            rw [lostWait?, part, ended]
            show some (⟨move.caller, target.number, proof.tx⟩ : AcceptedProof) = some proof
            rw [own, number]
          · refine .inr (.inl ⟨move.next, ?_, later⟩)
            rw [← own]
            exact List.getElem?_set_self inside
          · exact .inr (.inr verified)
        · refine .inr (.inl ⟨call, ?_, pursues⟩)
          rw [← called]
          exact List.getElem?_set_ne own
  · exact .inr (.inr (verified.advance (advances_of_step run step)))

/-- What becomes of an accepted proof: the wait fails, or the proof is still pursued. -/
theorem pursued_of_run {early late : List (program settings).Event} {event : (program settings).Event}
    (run : Program.Run (early ++ event :: late) system) {proof : AcceptedProof}
    (accepted : proofAcceptance? event = some proof) :
    (∃ lost ∈ late, lostWait? lost = some proof) ∨ Pursued system proof := by
  induction late using List.reverseRecOn generalizing system with
  | nil =>
      obtain ⟨_, _, step⟩ := run.of_concat
      exact .inr (pursued_of_accepted step accepted)
  | append_singleton late last ih =>
      rw [← List.cons_append, ← List.append_assoc] at run
      obtain ⟨_, earlier, step⟩ := run.of_concat
      rcases ih earlier with ⟨lost, member, fails⟩ | pursued
      · exact .inl ⟨lost, List.mem_append_left _ member, fails⟩
      · rcases pursued_step earlier pursued step with fails | later
        · exact .inl ⟨last, List.mem_append_right _ (List.mem_singleton.2 rfl), fails⟩
        · exact .inr later

/-- While a proof is pursued, no proof for its claim is accepted. -/
theorem not_pursued_of_accepted (run : Program.Run trace system) {event : (program settings).Event}
    {next : (program settings).System} (step : Program.Step system event next)
    {first second : AcceptedProof} (accepted : proofAcceptance? event = some second)
    (same : first.claimNumber = second.claimNumber) : ¬Pursued system first := by
  obtain ⟨_, sound⟩ := sound_of_run run
  cases step with
  | arrive request now => cases accepted
  | stop => cases accepted
  | move move running data free told =>
      obtain ⟨_, _, target, index, shown, retry, number, part⟩ := of_proofAcceptance?_eq accepted
      rintro (⟨call, called, pursues⟩ | verified)
      · have holds : .audit ∈ call.held := by
          rw [held_eq]
          generalize partOf call = pursuing at pursues
          cases pursues <;> exact List.mem_singleton.2 rfl
        have moverHolds : .audit ∈ move.call.held := by
          rw [held_eq, part]
          exact List.mem_singleton.2 rfl
        by_cases own : first.caller = move.caller
        · -- The call cannot both submit a proof and wait for the transaction of another one.
          rw [own, running] at called
          cases called
          rw [part] at pursues
          cases pursues
        · exact run.exclusive own called running _ holds moverHolds
      · have soundCall := sound _ (List.mem_of_getElem? running)
        rw [part] at soundCall
        rw [same, ← number] at verified
        exact not_verified_of_submitted (soundCall.target target rfl) verified

/-- Between two accepted proofs for a claim the wait for the transaction of the first one fails. -/
theorem lost_of_run {before between rest : List (program settings).Event}
    {first second : (program settings).Event}
    (run : Program.Run (before ++ first :: (between ++ second :: rest)) system)
    {proof other : AcceptedProof} (accepted : proofAcceptance? first = some proof)
    (acceptedAgain : proofAcceptance? second = some other)
    (same : proof.claimNumber = other.claimNumber) :
    ∃ event ∈ between, lostWait? event = some proof := by
  rw [← List.cons_append, ← List.append_assoc] at run
  obtain ⟨middle, next, runMiddle, step⟩ := run.exists_step
  rcases pursued_of_run runMiddle accepted with lost | pursued
  · exact lost
  · exact absurd pursued (not_pursued_of_accepted runMiddle step acceptedAgain same)

/-! ### Two proofs for a claim of one share -/

/-- The contract accepts the proof of the share. -/
def onlyAccepted (settings : LedgerSettings) (share : Share) (tx : Hash256) (caller : Nat)
    (proofTx : Hash256) : (program settings).Event :=
  .moved ⟨caller, .verify, .auditing (.submitting (onlyTarget share tx) 0 (onlyProof share)
    (Retry.start settings.retry)), onlySubmitted share tx, 0, .ok proofTx⟩

/-- The wait for the transaction of the proof. -/
def onlyWatch (settings : LedgerSettings) : Confirmation.Watch :=
  ⟨0, Ticker.start (max settings.confirmation.poll Confirmation.leastPoll) 0⟩

/-- The audit while the node is asked for the transaction of its proof. -/
def onlyAsked (settings : LedgerSettings) (share : Share) (tx proofTx : Hash256) : Audit.Phase :=
  .confirmingProof (onlyTarget share tx) 0 proofTx
    (.polling { onlyWatch settings with ticker := (onlyWatch settings).ticker.take 0 })

/-- After the contract has accepted the proof, the node is asked for the transaction. -/
theorem run_onlyAsked {calls : List (program settings).Call} {share : Share} {tx : Hash256}
    (idle : ∀ call ∈ calls, call.held = [])
    (run : Program.Run trace ⟨onlySubmitted share tx, calls ++ [onlyAudit settings share tx], false⟩)
    (proofTx : Hash256) :
    ∃ tick, Program.Run (trace ++ [onlyAccepted settings share tx calls.length proofTx] ++ [tick])
      ⟨onlySubmitted share tx,
        calls ++ [⟨.verify, .inl (.auditing (onlyAsked settings share tx proofTx))⟩], false⟩ := by
  have accepted := run.move_last idle 0 (.ok proofTx) (Await.free_of_lockless rfl) id rfl
  exact ⟨_, accepted.move_last idle 0 .due (Await.free_of_lockless rfl) TickOutcome.noConfusion rfl⟩

/-- No two audits succeed for the same claim, and the contract accepts a second proof for a claim only
after the wait for the transaction of the first one has failed. Nothing escapes this count: whoever is told
of a verification has made it, and every proof that is accepted is that of some claim. -/
theorem verified_once_of_run (run : Program.Run trace system) :
    ((trace.filterMap verification?).map (·.claimNumber)).Nodup ∧
      (∀ before first between second rest,
        trace = before ++ first :: (between ++ second :: rest) →
          ∀ proof other, proofAcceptance? first = some proof →
            proofAcceptance? second = some other → proof.claimNumber = other.claimNumber →
              ∃ event ∈ between, lostWait? event = some proof) ∧
      ∀ move : (program settings).Move, .moved move ∈ trace →
        (∀ verification, move.next.stage = .inr (.audited (.ok (some verification))) →
          verification? (.moved move) = some verification) ∧
        ∀ shown tx, move.exchange? = some ⟨PoolQuery.verifyClaim shown, .ok tx⟩ →
          ∃ number, audited? move.call = some number ∧
            proofAcceptance? (.moved move) = some ⟨move.caller, number, tx⟩ := by
  obtain ⟨nodup, _⟩ := verifications_of_run run
  refine ⟨nodup, ?_, fun move _ => ⟨?_, ?_⟩⟩
  · rintro before first between second rest rfl proof other accepted acceptedAgain same
    exact lost_of_run run accepted acceptedAgain same
  · intro verification told
    exact verification?_of_told told
  · intro shown tx answered
    exact exists_proofAcceptance answered

/-- A node that does not know the transaction of the first proof makes room for a second one, and the claim
is verified by it. -/
theorem verified_once_of_lost_run :
    ∃ (before between rest : List (program promptSettings).Event)
      (first second : (program promptSettings).Event) (system : (program promptSettings).System),
      Program.Run (before ++ first :: (between ++ second :: rest)) system ∧
        proofAcceptance? first = some ⟨1, 0, .zero 32⟩ ∧
        proofAcceptance? second = some ⟨2, 0, .zero 32⟩ ∧
        (∃ event ∈ between, lostWait? event = some ⟨1, 0, .zero 32⟩) ∧
        (∃ event ∈ rest, verification? event = some ⟨0, 0, .zero 32⟩) ∧
        (((before ++ first :: (between ++ second :: rest)).filterMap verification?).map
          (·.claimNumber)).Nodup := by
  obtain ⟨trace, run⟩ :=
    reachable_onlyAudit promptSettings (Nat.le_refl 1) rfl plainShare (.zero 32)
  have idle : ∀ call ∈ [onlyCall promptSettings plainShare (.zero 32)], call.held = [] := by
    intro call member
    rw [List.mem_singleton.1 member]
    rfl
  obtain ⟨firstTick, asked⟩ := run_onlyAsked idle run (.zero 32)
  have lost := asked.move_last idle 0 (.error (.reported .invalidParams "unknown transaction"))
    (Await.free_of_lockless rfl) id rfl
  let unknown : (program promptSettings).Call :=
    ⟨.verify, .inr (.audited (.error (.reported .invalidParams "unknown transaction")))⟩
  have idleAgain : ∀ call ∈ [onlyCall promptSettings plainShare (.zero 32), unknown],
      call.held = [] := by
    intro call member
    rcases List.mem_cons.1 member with rfl | second
    · rfl
    · rw [List.mem_singleton.1 second]
      rfl
  obtain ⟨late, again⟩ :=
    reachableAfter_onlyAudit rfl plainShare (.zero 32) idleAgain lost.reachableAfter
  obtain ⟨secondTick, askedAgain⟩ := run_onlyAsked idleAgain again (.zero 32)
  have confirmed := askedAgain.move_last idleAgain 0 (.ok true) (Await.free_of_lockless rfl) id rfl
  have recorded := confirmed.move_last idleAgain 0 ()
    (free_of_audit (.recording (onlyTarget plainShare (.zero 32)) 0 (.zero 32)) rfl) id rfl
  simp only [List.append_assoc, List.cons_append, List.nil_append] at recorded
  obtain ⟨nodup, lostBetween, _⟩ := verified_once_of_run recorded
  refine ⟨trace, firstTick :: _ :: late, [secondTick, _, _], _, _, _, recorded, rfl, rfl, ?_, ?_,
    nodup⟩
  · exact lostBetween _ _ (firstTick :: _ :: late) _ _ rfl _ _ rfl rfl rfl
  · exact ⟨_, .tail _ (.tail _ (.head _)), rfl⟩

end MiningPool.Ledger
