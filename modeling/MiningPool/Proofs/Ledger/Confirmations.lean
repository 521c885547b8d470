/-
Module: MiningPool.Proofs.Ledger.Confirmations
Purpose: what an audit has been told before it shows a proof and before it records one.
Main exports: Ledger.Told, Ledger.known_of_run, Ledger.heard_of_run, Ledger.recorded_of_run,
  Ledger.confirmations_of_run
-/
import MiningPool.Proofs.Ledger.Verification

/-!
An audit waits for two transactions, the one that has submitted its claim and the one that has taken its
proof. Each phase after such a wait has the node's word behind it, given to the same call since its audit
has begun. The failed polls, the further attempts and the steps of others in between do not take it back.
-/

namespace MiningPool.Ledger

variable {settings : LedgerSettings} {ledger after : Ledger}
  {trace early : List (program settings).Event} {system : (program settings).System}

/-! ### Answers within an audit -/

/-- Right after the events `early` the call has been told the answer in an audit of the claim, and at the
end of the trace that audit is not over. -/
structure ToldBy (trace early : List (program settings).Event) (caller number : Nat)
    (exchange : Exchange pool) (move : (program settings).Move)
    (late : List (program settings).Event) : Prop where
  split : trace = early ++ .moved move :: late
  own : move.caller = caller
  audited : audited? move.call = some number
  answered : move.exchange? = some exchange
  goesOn : endedBy? move = none
  sinceThen : ∀ later, .moved later ∈ late → later.caller = caller → endedBy? later = none

def Told (trace early : List (program settings).Event) (caller number : Nat)
    (exchange : Exchange pool) : Prop :=
  ∃ move late, ToldBy trace early caller number exchange move late

/-- The event does not end what the call is busy with. -/
def Spares (caller : Nat) (event : (program settings).Event) : Prop :=
  ∀ move, event = .moved move → move.caller = caller → endedBy? move = none

theorem Spares.of_goesOn {caller : Nat} {move : (program settings).Move}
    (goesOn : endedBy? move = none) : Spares caller (.moved move) := by
  intro other same own
  cases same
  exact goesOn

variable {caller number : Nat} {exchange : Exchange pool}

theorem Told.concat (told : Told trace early caller number exchange)
    {event : (program settings).Event} (spares : Spares caller event) :
    Told (trace ++ [event]) early caller number exchange := by
  rcases told with ⟨move, late, told⟩
  refine ⟨move, late ++ [event], ?_, told.own, told.audited, told.answered, told.goesOn, ?_⟩
  · rw [told.split, List.append_assoc, List.cons_append]
  · intro later member own
    rcases List.mem_append.1 member with old | new
    · exact told.sinceThen later old own
    · exact spares later (List.mem_singleton.1 new).symm own

theorem Told.now {move : (program settings).Move} (audited : audited? move.call = some number)
    (answered : move.exchange? = some exchange) (goesOn : endedBy? move = none) :
    Told (trace ++ [.moved move]) trace move.caller number exchange := by
  refine ⟨move, [], rfl, rfl, audited, answered, goesOn, ?_⟩
  intro later member
  exact absurd member List.not_mem_nil

/-- What an activity has been told so far, by what it is busy with. -/
def Heard (trace : List (program settings).Event) (caller : Nat) : Part → Prop
  | .audit (.seeding target _) | .audit (.proving target _ _) | .audit (.submitting target _ _ _) =>
    ∃ early, Told trace early caller target.number ⟨PoolQuery.isConfirmed target.tx, .ok true⟩
  | .audit (.confirmingProof target _ tx _) =>
    ∃ proof early, Told trace early caller target.number ⟨PoolQuery.verifyClaim proof, .ok tx⟩
  | .audit (.recording target _ tx) =>
    ∃ proof early middle,
      Told middle early caller target.number ⟨PoolQuery.verifyClaim proof, .ok tx⟩ ∧
        Told trace middle caller target.number ⟨PoolQuery.isConfirmed tx, .ok true⟩
  | _ => True

theorem Heard.concat {part : Part} (heard : Heard trace caller part)
    {event : (program settings).Event} (spares : Spares caller event) :
    Heard (trace ++ [event]) caller part := by
  rcases part with _ | phase | phase
  · trivial
  · trivial
  · cases phase with
    | entering => trivial
    | picking => trivial
    | confirmingClaim target watch => trivial
    | seeding target retry =>
        rcases heard with ⟨early, told⟩
        exact ⟨early, told.concat spares⟩
    | proving target index proving =>
        rcases heard with ⟨early, told⟩
        exact ⟨early, told.concat spares⟩
    | submitting target index proof retry =>
        rcases heard with ⟨early, told⟩
        exact ⟨early, told.concat spares⟩
    | confirmingProof target index tx watch =>
        rcases heard with ⟨proof, early, told⟩
        exact ⟨proof, early, told.concat spares⟩
    | recording target index tx =>
        rcases heard with ⟨proof, early, middle, accepted, told⟩
        exact ⟨proof, early, middle, accepted, told.concat spares⟩

/-! ### One step -/

/-- A step that goes on adds its answer to what the audit has been told. -/
theorem Heard.audit {move : (program settings).Move} {phase next : Audit.Phase}
    (heard : Heard trace move.caller (.audit phase)) (part : partOf move.call = .audit phase)
    (goesOn : endedBy? move = none) {answer? : Option (Exchange pool)}
    (answered : move.exchange? = answer?)
    (step : Audit.Step settings ledger phase answer? after (.inl next)) :
    Heard (trace ++ [.moved move]) move.caller (.audit next) := by
  have spares : Spares move.caller (.moved move) := .of_goesOn goesOn
  have audited : audited? move.call = phase.target?.map (·.number) := by
    rw [audited?, part]
  cases step with
  | enter => trivial
  | pick targeted => trivial
  | awaitClaim => trivial
  | @confirmClaim target watch _ chosen =>
      have told : Told (trace ++ [.moved move]) trace move.caller target.number
          ⟨PoolQuery.isConfirmed target.tx, .ok true⟩ := Told.now audited answered goesOn
      rcases Audit.choose_eq_seeding_or_proving chosen with ⟨retry, rfl⟩ | ⟨index, audited, rfl⟩
      · exact ⟨trace, told⟩
      · exact ⟨trace, told⟩
  | awaitSeed => exact heard.concat spares
  | seed seed begun =>
      rcases heard with ⟨early, told⟩
      rcases Audit.prove_eq_proving begun with ⟨audited, rfl⟩
      exact ⟨early, told.concat spares⟩
  | gather same => exact heard.concat spares
  | prove dataset assembled =>
      rcases heard with ⟨early, told⟩
      exact ⟨early, told.concat spares⟩
  | awaitVerdict failed =>
      rcases heard with ⟨early, told⟩
      exact ⟨early, told.concat spares⟩
  | @accept target index proof retry watch tx =>
      exact ⟨proof, trace, Told.now audited answered goesOn⟩
  | awaitProof =>
      rcases heard with ⟨proof, early, told⟩
      exact ⟨proof, early, told.concat spares⟩
  | confirmProof =>
      rcases heard with ⟨proof, early, told⟩
      exact ⟨proof, early, trace, told, Told.now audited answered goesOn⟩

/-! ### Runs -/

section

variable (known : List (program settings).Event → Nat → Part → Prop)
  (idle : ∀ trace caller, known trace caller .idle)
  (rotation : ∀ trace caller phase, known trace caller (.rotation phase))
  (entering : ∀ trace caller, known trace caller (.audit .entering))
  (stays : ∀ {trace caller part}, known trace caller part → ∀ {event}, Spares caller event →
    known (trace ++ [event]) caller part)
  (audit : ∀ {trace} {move : (program settings).Move} {phase next : Audit.Phase},
    known trace move.caller (.audit phase) → partOf move.call = .audit phase →
      partOf move.next = .audit next → endedBy? move = none →
        Audit.Step settings move.data phase move.exchange? move.after (.inl next) →
          known (trace ++ [.moved move]) move.caller (.audit next))

include idle rotation entering audit

/-- Only what is known of audits under way has to be looked at. -/
theorem known_next {move : (program settings).Move}
    (before : known trace move.caller (partOf move.call)) :
    known (trace ++ [.moved move]) move.caller (partOf move.next) := by
  have course := move_course move
  generalize ends : endedBy? move = ended at course
  generalize part : partOf move.call = busy at course before
  generalize goesOn : partOf move.next = next at course ⊢
  generalize given : move.exchange? = exchange at course
  generalize left : move.after = ledger at course
  cases course with
  | idle round =>
      rcases round with rfl | rfl
      · apply idle
      · apply rotation
  | rotation step => apply rotation
  | rotated step following =>
      rcases following with rfl | rfl
      · apply idle
      · apply entering
  | audit step =>
      subst given left
      exact audit before part goesOn ends step
  | audited step => apply idle

include stays

/-- What is known of activities that have not begun an audit, stays known as long as nothing ends, and is
brought along by every step of an audit, is known in every state of every run. -/
theorem known_of_run (run : Program.Run trace system) :
    ∀ caller call, system.calls[caller]? = some call → known trace caller (partOf call) := by
  induction run with
  | start =>
      intro caller call found
      cases found
  | @step trace system next event run step ih =>
      intro caller call found
      cases step with
      | arrive request now =>
          rcases Program.getElem?_calls_arrive found with ⟨rfl, rfl⟩ | before
          · cases request with
            | add share => apply rotation
            | rotate => apply rotation
            | verify => apply entering
            | cycle => apply idle
          · apply stays (ih caller call before)
            intro move same
            cases same
      | stop =>
          apply stays (ih caller call found)
          intro move same
          cases same
      | move move running data free told =>
          rcases Program.getElem?_calls_move found with ⟨rfl, rfl⟩ | ⟨elsewhere, before⟩
          · exact known_next known idle rotation entering audit (ih _ _ running)
          · apply stays (ih caller call before)
            intro other same own
            cases same
            exact absurd own.symm elsewhere

end

/-- In every state of every run, an audit has been told what its phase stands for. -/
theorem heard_of_run (run : Program.Run trace system) :
    ∀ caller call, system.calls[caller]? = some call → Heard trace caller (partOf call) := by
  apply known_of_run Heard _ _ _ Heard.concat _ run
  · intro trace caller
    trivial
  · intro trace caller phase
    trivial
  · intro trace caller
    trivial
  · intro trace move phase next heard part goesOn ends step
    exact heard.audit part ends rfl step

/-- A claim is verified by the record of its audit and by nothing else. -/
theorem Part.Change.of_verified {part : Part}
    (wellFormed : ledger.WellFormed settings.shareThreshold) (sound : part.Sound settings ledger)
    {answer? : Option (Exchange pool)}
    (change : Part.Change settings ledger part answer? after) {tx : Hash256}
    (verified : after.status? number = some (.verified tx)) :
    ledger.status? number = some (.verified tx) ∨
      ∃ target index, part = .audit (.recording target index tx) ∧ target.number = number := by
  rw [status?] at verified ⊢
  cases change with
  | keep known refused => exact .inl verified
  | add new =>
      rw [wellFormed.add_eq] at verified
      by_cases isCurrent : number = ledger.current
      · simp [isCurrent] at verified
      · rw [Slots.get?_insert_of_ne isCurrent] at verified
        exact .inl verified
  | @accept rotation retry claimTx =>
      rw [get?_accept] at verified
      split at verified
      · simp [Slot.fresh] at verified
      · split at verified
        · simp at verified
        · exact .inl verified
  | @verify target index proofTx =>
      rw [get?_verify] at verified
      split at verified
      · rename_i same
        have submitted := sound.target target rfl
        rw [submitted] at verified
        cases verified
        exact .inr ⟨target, index, rfl, same.symm⟩
      · exact .inl verified

/-- With the record of a verification an audit succeeds. -/
theorem verification?_of_recording {move : (program settings).Move} {target : AuditTarget}
    {index : Nat} {tx : Hash256} (part : partOf move.call = .audit (.recording target index tx)) :
    verification? (.moved move) = some ⟨target.number, index, tx⟩ := by
  have course := move_course move
  rw [part] at course
  generalize ends : endedBy? move = ended at course
  generalize partOf move.next = next at course
  generalize move.exchange? = exchange at course
  generalize move.after = after at course
  cases course with
  | audit step => cases step
  | audited step =>
      cases step with
      | record => rw [verification?, ends]
      | fail error unrecorded => exact absurd rfl (unrecorded _ _ _)

/-- The transaction of a verified claim has taken a proof and has then been confirmed, both in the audit
that has recorded it. -/
structure Recorded (trace : List (program settings).Event) (number : Nat) (tx : Hash256)
    (before : List (program settings).Event) (record : (program settings).Move)
    (rest : List (program settings).Event) : Prop where
  split : trace = before ++ .moved record :: rest
  verifies : ∃ index, verification? (.moved record) = some ⟨number, index, tx⟩
  unverified : ¬record.data.Verified number
  verified : record.after.status? number = some (.verified tx)
  told : ∃ proof early middle,
    Told middle early record.caller number ⟨PoolQuery.verifyClaim proof, .ok tx⟩ ∧
      Told before middle record.caller number ⟨PoolQuery.isConfirmed tx, .ok true⟩

theorem Recorded.concat {tx : Hash256} {before rest : List (program settings).Event}
    {record : (program settings).Move} (recorded : Recorded trace number tx before record rest)
    (event : (program settings).Event) :
    Recorded (trace ++ [event]) number tx before record (rest ++ [event]) where
  split := by rw [recorded.split, List.append_assoc, List.cons_append]
  verifies := recorded.verifies
  unverified := recorded.unverified
  verified := recorded.verified
  told := recorded.told

theorem recorded_of_run (run : Program.Run trace system) {number : Nat} {tx : Hash256}
    (verified : system.data.status? number = some (.verified tx)) :
    ∃ before record rest, Recorded trace number tx before record rest := by
  induction run with
  | start =>
      have isFresh : fresh.status? number = some (.verified tx) := verified
      simp only [status?, fresh, Slots.get?_cons] at isFresh
      split at isFresh <;> cases isFresh
  | @step trace system next event run step ih =>
      have earlier (before : system.data.status? number = some (.verified tx)) :
          ∃ before record rest, Recorded (trace ++ [event]) number tx before record rest := by
        rcases ih before with ⟨early, record, rest, recorded⟩
        exact ⟨early, record, _, recorded.concat event⟩
      cases step with
      | arrive request now => exact earlier verified
      | stop => exact earlier verified
      | move move running data free told =>
          rcases sound_of_run run with ⟨wellFormed, sound⟩
          have soundCall := sound _ (List.mem_of_getElem? running)
          rw [← data] at wellFormed soundCall earlier
          rcases (move_step move).change.of_verified wellFormed soundCall verified with
            before | ⟨target, index, part, rfl⟩
          · exact earlier before
          · have heard := heard_of_run run _ _ running
            rw [part] at soundCall heard
            exact ⟨trace, move, [], rfl, ⟨index, verification?_of_recording part⟩,
              not_verified_of_submitted (soundCall.target target rfl), verified, heard⟩

/-! ### The end of an audit -/

/-- A request to audit a claim that has verified it. -/
def verifiedCall (settings : LedgerSettings) (target : AuditTarget) (index : Nat) (proofTx : Hash256) :
    (program settings).Call :=
  ⟨.verify, .inr (.audited (.ok (some ⟨target.number, index, proofTx⟩)))⟩

/-- If nobody else holds a lock, an audit that shows its proof can end with the verification. -/
theorem reachableAfter_verified {early : List (program settings).Event} {ledger : Ledger}
    {calls : List (program settings).Call} {target : AuditTarget} {index : Nat}
    {proof : VerificationProof} (idle : ∀ call ∈ calls, call.held = [])
    (shows : Program.ReachableAfter early
      ⟨ledger, calls ++ [showingCall settings target index proof], false⟩) (proofTx : Hash256) :
    Program.ReachableAfter early
      ⟨ledger.verify target.number proofTx, calls ++ [verifiedCall settings target index proofTx],
        false⟩ := by
  have accepted := shows.move_last idle 0 (.ok proofTx) (Await.free_of_lockless rfl) id rfl
  have ticked := accepted.move_last idle 0 .due (Await.free_of_lockless rfl) TickOutcome.noConfusion rfl
  have confirmed := ticked.move_last idle 0 (.ok true) (Await.free_of_lockless rfl) id rfl
  exact confirmed.move_last idle 0 () (free_of_audit (.recording target index proofTx) rfl) id rfl

/-- The claim of one share can be verified right after its submission. -/
theorem reachable_onlyVerified (settings : LedgerSettings) (small : settings.shareThreshold ≤ 1)
    (first : settings.auditIndex = some 0) (share : Share) (tx proofTx : Hash256) :
    Program.Reachable ⟨(onlySubmitted share tx).verify 0 proofTx,
      [onlyCall settings share tx, verifiedCall settings (onlyTarget share tx) 0 proofTx],
        false⟩ := by
  have shows := Program.reachableAfter_nil.2 (reachable_onlyAudit settings small first share tx)
  rw [← Program.reachableAfter_nil]
  exact reachableAfter_verified (idle_onlyCall settings share tx) shows proofTx

/-! ### The order of confirmations -/

/-- Whenever an audit asks the contract to take a proof, the claim is one that has been submitted and not
verified, and the audit has been told that its transaction is confirmed. Whenever a claim is verified, the
audit that has recorded it has been told before that the contract has taken a proof with the recorded
transaction, and after that, that this transaction is confirmed. -/
theorem confirmations_of_run (run : Program.Run trace system) :
    (∀ caller call, system.calls[caller]? = some call →
      ∀ proof, call.query? = some (.verifyClaim proof) →
        ∃ number claim tx early, audited? call = some number ∧
          system.data.slots.get? number = some ⟨claim, .submitted tx⟩ ∧
          number < system.data.current ∧ ¬system.data.Verified number ∧
          Told trace early caller number ⟨PoolQuery.isConfirmed tx, .ok true⟩) ∧
    ∀ number tx, system.data.status? number = some (.verified tx) →
      ∃ before record rest, Recorded trace number tx before record rest := by
  constructor
  · intro caller call called proof asks
    rcases sound_of_run run with ⟨wellFormed, sound⟩
    have soundCall := sound call (List.mem_of_getElem? called)
    have heard := heard_of_run run caller call called
    rw [query?_eq] at asks
    rcases Part.of_query?_eq_verifyClaim asks with ⟨target, index, retry, part⟩
    rw [part] at soundCall heard
    have submitted := soundCall.target target rfl
    rcases heard with ⟨early, told⟩
    refine ⟨target.number, target.claim, target.tx, early, ?_, submitted, ?_, ?_, told⟩
    · rw [audited?, part]
      rfl
    · exact wellFormed.lt_current submitted ClaimStatus.noConfusion
    · exact not_verified_of_submitted submitted
  · intro number tx verified
    exact recorded_of_run run verified

/-- Both waits occur: a proof is shown, and another run records one. -/
theorem confirmations_of_prompt_run :
    (∃ (trace early : List (program promptSettings).Event)
      (system : (program promptSettings).System), Program.Run trace system ∧
        system.calls[1]? = some (onlyAudit promptSettings plainShare (.zero 32)) ∧
        Told trace early 1 0 ⟨PoolQuery.isConfirmed (.zero 32), .ok true⟩) ∧
    ∃ (trace before rest : List (program promptSettings).Event)
      (record : (program promptSettings).Move) (system : (program promptSettings).System),
      Program.Run trace system ∧ system.data.status? 0 = some (.verified (.zero 32)) ∧
        Recorded trace 0 (.zero 32) before record rest := by
  constructor
  · obtain ⟨trace, run⟩ :=
      reachable_onlyAudit promptSettings (Nat.le_refl 1) rfl plainShare (.zero 32)
    rcases (confirmations_of_run run).1 1 _ rfl (onlyProof plainShare) rfl with
      ⟨number, claim, tx, early, audits, submitted, _, _, told⟩
    cases audits
    cases submitted
    exact ⟨trace, early, _, run, rfl, told⟩
  · obtain ⟨trace, run⟩ :=
      reachable_onlyVerified promptSettings (Nat.le_refl 1) rfl plainShare (.zero 32) (.zero 32)
    rcases (confirmations_of_run run).2 0 (.zero 32) rfl with ⟨before, record, rest, shown⟩
    exact ⟨trace, before, rest, record, _, run, rfl, shown⟩

end MiningPool.Ledger
