/-
Module: MiningPool.Proofs.Ledger.AuditFailure
Purpose: why an audit fails, and where the dataset words come from that it looks up.
Main exports: Audit.Failure, Audit.resume_failure, Audit.choose_ne_error, Ledger.auditing_step,
  Ledger.named_of_run
-/
import MiningPool.Proofs.Claim.Selection
import MiningPool.Proofs.Ledger.Confirmations

/-!
An audit hands on the failure of the collaborator that it has asked last, and it gives up a wait. All else
that it fails with is found out by itself: a position that the claim does not have, or a dataset that does
not have the words. The positions of claims in the ledger are never wrong, so that only the dataset is
left.
-/

namespace MiningPool

/-- A wait for a transaction fails with the node's failure, or because it has been given up. -/
theorem Confirmation.of_resume_eq_error {settings : WatchSettings} {tx : Hash256} {now : Instant}
    {phase : Phase} {reply : (await tx phase).Reply} {error : Error}
    (resumed : resume settings tx now phase reply = .inr (.error error)) :
    error = .unconfirmed tx ∨ error = .interrupted tx ∨
      ∃ query, (await tx phase).exchange? reply = some ⟨query, .error error⟩ := by
  cases phase with
  | waiting watch =>
      cases reply with
      | due => cases resumed
      | cancelled =>
          cases resumed
          exact .inr (.inl rfl)
  | polling watch =>
      cases reply with
      | ok confirmed =>
          cases confirmed with
          | true => cases resumed
          | false => exact .inl (Except.error.inj (eq_of_goOn_eq resumed))
      | error failure =>
          simp only [resume, answered] at resumed
          split at resumed
          · exact .inl (Except.error.inj (eq_of_goOn_eq resumed))
          · cases resumed
            exact .inr (.inr ⟨_, rfl⟩)

namespace Proving

variable {datasets : DatasetLocator} {phase : Phase} {reply : (await phase).Reply}

/-- The words are looked up at the positions that were named for the share. -/
theorem of_resume_eq_inl {next : Phase} (resumed : resume datasets phase reply = .inl next) :
    (∃ audited indices, phase = .indices audited ∧ next = .seed audited indices ∧
      (await phase).exchange? reply =
        some ⟨PoolQuery.verificationIndices audited.share, .ok indices⟩) ∨
    ∃ audited indices path, phase = .seed audited indices ∧ next = .dataset audited indices path := by
  cases phase with
  | indices audited =>
      cases reply with
      | error error => cases resumed
      | ok indices =>
          cases resumed
          exact .inl ⟨audited, indices, rfl, rfl, rfl⟩
  | seed audited indices =>
      cases reply with
      | error error => cases resumed
      | ok seed =>
          cases resumed
          exact .inr ⟨audited, indices, _, rfl, rfl⟩
  | dataset audited indices path => cases resumed

/-- A proof cannot be made because of a collaborator or because of the content of the dataset file. -/
theorem of_resume_eq_error {error : Error}
    (resumed : resume datasets phase reply = .inr (.error error)) :
    (∃ query, (await phase).exchange? reply = some ⟨query, .error error⟩) ∨
    ∃ audited indices path content, phase = .dataset audited indices path ∧
      (await phase).exchange? reply = some ⟨PoolQuery.fileContent path, .ok content⟩ ∧
        finish audited indices (.ok content) = .error error := by
  cases phase with
  | indices audited =>
      cases reply with
      | error failure =>
          cases resumed
          exact .inl ⟨_, rfl⟩
      | ok indices => cases resumed
  | seed audited indices =>
      cases reply with
      | error failure =>
          cases resumed
          exact .inl ⟨_, rfl⟩
      | ok seed => cases resumed
  | dataset audited indices path =>
      cases reply with
      | error failure =>
          cases resumed
          exact .inl ⟨_, rfl⟩
      | ok content => exact .inr ⟨audited, indices, path, content, rfl, rfl, Sum.inr.inj resumed⟩

end Proving

namespace Audit

variable {settings : LedgerSettings} {ledger : Ledger} {now : Instant} {target : AuditTarget}
  {error : Error}

/-- The causes of failures: phase, exchange, and error. -/
inductive Failure (settings : LedgerSettings) : Phase → Option (Exchange pool) → Error → Prop where
  | answer {phase : Phase} (query : PoolQuery) (error : Error) :
      Failure settings phase (some ⟨query, .error error⟩) error
  | unconfirmed {phase : Phase} {exchange : Option (Exchange pool)} (tx : Hash256) :
      Failure settings phase exchange (.unconfirmed tx)
  | interrupted {phase : Phase} {exchange : Option (Exchange pool)} (tx : Hash256) :
      Failure settings phase exchange (.interrupted tx)
  | choose {target : AuditTarget} {watch : Confirmation.Phase} {exchange : Option (Exchange pool)}
      {error : Error} (chosen : choose settings target = .inr (.error error)) :
      Failure settings (.confirmingClaim target watch) exchange error
  | prove {target : AuditTarget} {retry : Retry.Phase} {exchange : Option (Exchange pool)}
      {error : Error} (seed : Nat)
      (begun : prove target (seed % target.claim.size) = .inr (.error error)) :
      Failure settings (.seeding target retry) exchange error
  | finish {target : AuditTarget} {index : Nat} {audited : AuditedShare} {indices : List Nat}
      {path : String} {content : List UInt8} {error : Error}
      (finished : Proving.finish audited indices (.ok content) = .error error) :
      Failure settings (.proving target index (.dataset audited indices path))
        (some ⟨PoolQuery.fileContent path, .ok content⟩) error

/-- The failure of a wait is one of the audit. -/
theorem Failure.of_confirmation {phase : Phase} {tx : Hash256} {watch : Confirmation.Phase}
    {reply : (Confirmation.await tx watch).Reply}
    (resumed : Confirmation.resume settings.confirmation tx now watch reply = .inr (.error error)) :
    Failure settings phase ((Confirmation.await tx watch).exchange? reply) error := by
  rcases Confirmation.of_resume_eq_error resumed with rfl | rfl | ⟨query, answered⟩
  · exact .unconfirmed tx
  · exact .interrupted tx
  · rw [answered]
    exact .answer query error

/-- The failure of the last attempt is one of the audit. -/
theorem Failure.of_retry {phase : Phase} {query : PoolQuery} {retry : Retry.Phase}
    {reply : (Retry.await (I := pool) query retry).Reply}
    (resumed : Retry.resume (I := pool) settings.retry query retry reply = .inr (.error error)) :
    Failure settings phase ((Retry.await (I := pool) query retry).exchange? reply) error := by
  rw [Retry.resume_eq_inr resumed]
  exact .answer query error

theorem Failure.of_proving {index : Nat} {proving : Proving.Phase}
    {reply : (Proving.await proving).Reply}
    (resumed : Proving.resume settings.datasets proving reply = .inr (.error error)) :
    Failure settings (.proving target index proving) ((Proving.await proving).exchange? reply)
      error := by
  rcases Proving.of_resume_eq_error resumed with
    ⟨query, answered⟩ | ⟨audited, indices, path, content, rfl, answered, finished⟩
  · rw [answered]
    exact .answer query error
  · rw [answered]
    exact .finish finished

/-- The parts of a step that can fail. -/
inductive FailsIn (settings : LedgerSettings) (now : Instant) :
    (phase : Phase) → (await phase).Reply → Error → Prop where
  | claim {target : AuditTarget} {watch : Confirmation.Phase}
      {reply : (Confirmation.await target.tx watch).Reply} {error : Error}
      (failed : Confirmation.resume settings.confirmation target.tx now watch reply =
        .inr (.error error)) :
      FailsIn settings now (.confirmingClaim target watch) reply error
  | choose {target : AuditTarget} {watch : Confirmation.Phase}
      {reply : (Confirmation.await target.tx watch).Reply} {error : Error}
      (chosen : choose settings target = .inr (.error error)) :
      FailsIn settings now (.confirmingClaim target watch) reply error
  | seed {target : AuditTarget} {retry : Retry.Phase}
      {reply : (Retry.await (I := pool) .claimSeed retry).Reply} {error : Error}
      (failed : Retry.resume (I := pool) settings.retry .claimSeed retry reply =
        .inr (.error error)) :
      FailsIn settings now (.seeding target retry) reply error
  | prove {target : AuditTarget} {retry : Retry.Phase}
      {reply : (Retry.await (I := pool) .claimSeed retry).Reply} {error : Error} (seed : Nat)
      (begun : prove target (seed % target.claim.size) = .inr (.error error)) :
      FailsIn settings now (.seeding target retry) reply error
  | gather {target : AuditTarget} {index : Nat} {proving : Proving.Phase}
      {reply : (Proving.await proving).Reply} {error : Error}
      (failed : Proving.resume settings.datasets proving reply = .inr (.error error)) :
      FailsIn settings now (.proving target index proving) reply error
  | submit {target : AuditTarget} {index : Nat} {proof : VerificationProof} {retry : Retry.Phase}
      {reply : (Retry.await (I := pool) (.verifyClaim proof) retry).Reply} {error : Error}
      (failed : Retry.resume (I := pool) settings.retry (.verifyClaim proof) retry reply =
        .inr (.error error)) :
      FailsIn settings now (.submitting target index proof retry) reply error
  | proof {target : AuditTarget} {index : Nat} {tx : Hash256} {watch : Confirmation.Phase}
      {reply : (Confirmation.await tx watch).Reply} {error : Error}
      (failed : Confirmation.resume settings.confirmation tx now watch reply =
        .inr (.error error)) :
      FailsIn settings now (.confirmingProof target index tx watch) reply error

theorem failsIn_of_resume {phase : Phase} {reply : (await phase).Reply}
    (resumed : (resume settings ledger now phase reply).2 = .inr (.error error)) :
    FailsIn settings now phase reply error := by
  cases phase with
  | entering => cases resumed
  | picking =>
      simp only [resume] at resumed
      split at resumed <;> cases resumed
  | confirmingClaim target watch =>
      simp only [resume] at resumed
      split at resumed
      · cases resumed
      · rename_i failed
        cases resumed
        exact .claim failed
      · exact .choose resumed
  | seeding target retry =>
      simp only [resume] at resumed
      split at resumed
      · cases resumed
      · rename_i outcome ends
        cases outcome with
        | error failure =>
            cases resumed
            exact .seed ends
        | ok seed => exact .prove seed resumed
  | proving target index proving =>
      simp only [resume] at resumed
      split at resumed
      · cases resumed
      · rename_i failed
        cases resumed
        exact .gather failed
      · cases resumed
  | submitting target index proof retry =>
      simp only [resume] at resumed
      split at resumed
      · cases resumed
      · rename_i outcome ends
        cases outcome with
        | error failure =>
            cases resumed
            exact .submit ends
        | ok tx => cases resumed
  | confirmingProof target index tx watch =>
      simp only [resume] at resumed
      split at resumed
      · cases resumed
      · rename_i failed
        cases resumed
        exact .proof failed
      · cases resumed
  | recording target index tx => cases resumed

theorem resume_failure {phase : Phase} {reply : (await phase).Reply}
    (resumed : (resume settings ledger now phase reply).2 = .inr (.error error)) :
    Failure settings phase ((await phase).exchange? reply) error := by
  cases failsIn_of_resume resumed with
  | claim failed => exact .of_confirmation failed
  | choose chosen => exact .choose chosen
  | seed failed => exact .of_retry failed
  | prove seed begun => exact .prove seed begun
  | gather failed => exact .of_proving failed
  | submit failed => exact .of_retry failed
  | proof failed => exact .of_confirmation failed

/-! ### Positions of the claim -/

/-- The proof for a position of the claim can be begun. -/
theorem prove_ne_error {index : Nat} (inside : index < target.claim.size)
    (few : target.claim.size ≤ 2 ^ (32 : Nat)) : prove target index ≠ .inr (.error error) := by
  obtain ⟨audited, selected⟩ := AuditedShare.exists_select_eq_ok inside few
  rw [Audit.prove, Proving.start, selected]
  exact Sum.inl_ne_inr

/-- The fixed position is one of the claim. -/
theorem choose_ne_error (nonempty : 0 < target.claim.size)
    (inside : ∀ index ∈ settings.auditIndex, index < target.claim.size)
    (few : target.claim.size ≤ 2 ^ (32 : Nat)) : choose settings target ≠ .inr (.error error) := by
  rw [choose, if_neg (Nat.ne_of_gt nonempty)]
  cases fixed : settings.auditIndex with
  | none => exact Sum.inl_ne_inr
  | some index =>
      have isInside := inside index fixed
      simp only [if_pos isInside]
      exact prove_ne_error isInside few

/-- With a fixed position and a share in the picked claim, only collaborators, waits and datasets fail. -/
theorem Failure.of_inside {phase : Phase} {exchange : Option (Exchange pool)}
    (failure : Failure settings phase exchange error) (proven : phase.Proven)
    (nonempty : ∀ target ∈ phase.target?, 0 < target.claim.size)
    (inside : ∀ target ∈ phase.target?, ∀ index ∈ settings.auditIndex, index < target.claim.size)
    (few : ∀ target ∈ phase.target?, target.claim.size ≤ 2 ^ (32 : Nat)) :
    (∃ query, exchange = some ⟨query, .error error⟩) ∨
      (∃ tx, error = .unconfirmed tx ∨ error = .interrupted tx) ∨
        ∃ target index audited indices path content,
          phase = .proving target index (.dataset audited indices path) ∧
            exchange = some ⟨PoolQuery.fileContent path, .ok content⟩ ∧
              DatasetFlaw indices content error := by
  cases failure with
  | answer query => exact .inl ⟨query, rfl⟩
  | unconfirmed tx => exact .inr (.inl ⟨tx, .inl rfl⟩)
  | interrupted tx => exact .inr (.inl ⟨tx, .inr rfl⟩)
  | @choose target watch _ _ chosen =>
      exact absurd chosen (choose_ne_error (nonempty target rfl) (inside target rfl) (few target rfl))
  | @prove target retry _ _ seed begun =>
      have position : seed % target.claim.size < target.claim.size :=
        Nat.mod_lt seed (nonempty target rfl)
      exact absurd begun (prove_ne_error position (few target rfl))
  | @finish target index audited indices path content _ finished =>
      have flaw := Proving.flaw_of_finish_eq_error proven finished
      exact .inr (.inr ⟨target, index, audited, indices, path, content, rfl, rfl, flaw⟩)

end Audit

/-! ### The words that were named -/

namespace Ledger

variable {settings : LedgerSettings} {trace : List (program settings).Event}
  {system : (program settings).System} {caller : Nat}

/-- The step of a call that is busy with an audit is one of the audit. -/
theorem auditing_step {move : (program settings).Move} {phase : Audit.Phase}
    (part : partOf move.call = .audit phase) :
    ∃ reply, move.exchange? = (Audit.await phase).exchange? reply ∧
      (∀ next, (Audit.resume settings move.data move.now phase reply).2 = .inl next →
        partOf move.next = .audit next) ∧
      endedBy? move =
        (Audit.resume settings move.data move.now phase reply).2.getRight?.map .audited := by
  obtain ⟨caller, request, whole, data, now, reply⟩ := move
  cases whole with
  | rotating rotation => cases part
  | auditing audit =>
      cases part
      refine ⟨reply, rfl, ?_, rfl⟩
      intro next goesOn
      have after : partAfter ((Audit.resume settings data now phase reply).2.map .auditing .audited) =
          .audit next := by
        rw [goesOn]
        rfl
      exact after
  | cycling cycle =>
      cases cycle with
      | waiting ticker => cases part
      | rotating ticker rotation => cases part
      | auditing ticker audit =>
          cases part
          refine ⟨reply, rfl, ?_, rfl⟩
          intro next goesOn
          have after : partAfter ((Cycle.resume settings data now (.auditing ticker phase) reply).2.map
              .cycling .ended) = .audit next := by
            simp only [Cycle.resume]
            generalize Audit.resume settings data now phase reply = result at goesOn
            obtain ⟨after, _⟩ := result
            cases goesOn
            rfl
          exact after

/-- A step after which the audit goes on leads to its next phase. -/
theorem resume_of_auditing {move : (program settings).Move} {phase next : Audit.Phase}
    (part : partOf move.call = .audit phase) (goesOn : partOf move.next = .audit next)
    (ends : endedBy? move = none) :
    ∃ reply, move.exchange? = (Audit.await phase).exchange? reply ∧
      (Audit.resume settings move.data move.now phase reply).2 = .inl next := by
  obtain ⟨reply, answered, leads, ended⟩ := auditing_step part
  refine ⟨reply, answered, ?_⟩
  cases resumed : (Audit.resume settings move.data move.now phase reply).2 with
  | inl following =>
      have same := leads following resumed
      rw [goesOn] at same
      cases same
      rfl
  | inr outcome =>
      rw [resumed, ends] at ended
      cases ended

/-- A step with which the audit ends leads to its outcome. -/
theorem resume_of_audited {move : (program settings).Move}
    {outcome : Except Error (Option Verification)}
    (ends : endedBy? move = some (.audited outcome)) :
    ∃ phase reply, partOf move.call = .audit phase ∧
      move.exchange? = (Audit.await phase).exchange? reply ∧
        (Audit.resume settings move.data move.now phase reply).2 = .inr outcome := by
  have course := move_course move
  rw [ends] at course
  obtain ⟨phase, part, _⟩ := course.of_audited
  obtain ⟨reply, answered, _, ended⟩ := auditing_step part
  refine ⟨phase, reply, part, answered, ?_⟩
  cases resumed : (Audit.resume settings move.data move.now phase reply).2 with
  | inl next =>
      rw [resumed, ends] at ended
      cases ended
  | inr result =>
      rw [resumed, ends] at ended
      cases ended
      rfl

/-- The words that an audit looks up have been named to it for its share. -/
def Named (trace : List (program settings).Event) (caller : Nat) : Part → Prop
  | .audit (.proving target _ (.seed audited indices))
  | .audit (.proving target _ (.dataset audited indices _)) =>
    ∃ early, Told trace early caller target.number
      ⟨PoolQuery.verificationIndices audited.share, .ok indices⟩
  | _ => True

theorem Named.concat {part : Part} (named : Named trace caller part)
    {event : (program settings).Event} (spares : Spares caller event) :
    Named (trace ++ [event]) caller part := by
  unfold Named at named ⊢
  split at named
  · rcases named with ⟨early, told⟩
    exact ⟨early, told.concat spares⟩
  · rcases named with ⟨early, told⟩
    exact ⟨early, told.concat spares⟩
  · trivial

/-- A step of an audit that goes on looks up what it has been named before or with this step. -/
theorem Named.audit {move : (program settings).Move} {phase next : Audit.Phase}
    (named : Named trace move.caller (.audit phase)) (part : partOf move.call = .audit phase)
    (goesOn : partOf move.next = .audit next) (ends : endedBy? move = none) :
    Named (trace ++ [.moved move]) move.caller (.audit next) := by
  have spares : Spares move.caller (.moved move) := .of_goesOn ends
  have audited : audited? move.call = phase.target?.map (·.number) := by
    rw [audited?, part]
  obtain ⟨reply, answered, resumed⟩ := resume_of_auditing part goesOn ends
  have step : Audit.Step settings move.data phase _
      (Audit.resume settings move.data move.now phase reply).1 (.inl next) :=
    resumed ▸ Audit.resume_step phase reply
  generalize (Audit.resume settings move.data move.now phase reply).1 = after at step
  generalize given : (Audit.await phase).exchange? reply = answer? at step
  cases step with
  | confirmClaim chosen =>
      rcases Audit.choose_eq_seeding_or_proving chosen with ⟨retry, rfl⟩ | ⟨index, share, rfl⟩
      · trivial
      · trivial
  | seed seed begun =>
      obtain ⟨share, rfl⟩ := Audit.prove_eq_proving begun
      trivial
  | @gather target index proving following _ same =>
      simp only [Audit.resume] at resumed
      split at resumed
      · rename_i gathered goesOnProving
        cases resumed
        rcases Proving.of_resume_eq_inl goesOnProving with
          ⟨share, indices, rfl, rfl, exchange⟩ | ⟨share, indices, path, rfl, rfl⟩
        · exact ⟨trace, Told.now audited (answered.trans exchange) ends⟩
        · rcases named with ⟨early, told⟩
          exact ⟨early, told.concat spares⟩
      · cases resumed
      · cases resumed
  | _ => trivial

/-- In every state of every run, an audit looks up words that have been named to it. -/
theorem named_of_run (run : Program.Run trace system) :
    ∀ caller call, system.calls[caller]? = some call → Named trace caller (partOf call) := by
  apply known_of_run Named _ _ _ Named.concat _ run
  · intro trace caller
    trivial
  · intro trace caller phase
    trivial
  · intro trace caller
    trivial
  · intro trace move phase next named part goesOn ends _
    exact named.audit part goesOn ends

end Ledger

end MiningPool
