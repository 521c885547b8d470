/-
Module: MiningPool.Proofs.Effect.Waiting
Purpose: the exchanges that end a call with further attempts and a wait for a transaction.
Main exports: Retry.resume_eq_inr, Retry.resume_eq_inl, Confirmation.eq_of_goOn_eq,
  Confirmation.resume_eq_ok
-/
import MiningPool.Effect.Confirmation
import MiningPool.Effect.Retry
import MiningPool.Proofs.Effect.Interleaving

/-!
The outcome of a call with further attempts is the answer to its last attempt; all attempts before it
have failed. A wait for a transaction ends well only with the node's word for that transaction.
-/

namespace MiningPool

namespace Retry

variable {I : Interface} {policy : RetryPolicy} {query : I.Query} {phase next : Phase}
  {reply : (await query phase).Reply}

/-- The outcome is the answer to the last attempt. -/
theorem resume_eq_inr {outcome : Except Error (I.Answer query)}
    (resumed : resume policy query phase reply = .inr outcome) :
    (await query phase).exchange? reply = some ⟨query, outcome⟩ := by
  cases phase with
  | calling attempt delay =>
      cases reply with
      | ok answer =>
          cases resumed
          rfl
      | error error =>
          simp only [resume, attempted] at resumed
          split at resumed
          · cases resumed
          · cases resumed
            rfl
  | drawing attempt delay => cases resumed
  | resting attempt delay wait => cases resumed
  | overflowed => cases reply

/-- Only failures are followed by another attempt. -/
theorem resume_eq_inl (resumed : resume policy query phase reply = .inl next) :
    ∀ exchange ∈ (await query phase).exchange? reply,
      ∃ error, exchange = ⟨query, .error error⟩ := by
  intro exchange answered
  cases phase with
  | calling attempt delay =>
      cases reply with
      | ok answer => cases resumed
      | error error =>
          cases answered
          exact ⟨error, rfl⟩
  | drawing attempt delay => cases answered
  | resting attempt delay wait => cases answered
  | overflowed => cases reply

end Retry

/-- Without an answer from the node, a wait for a transaction ends only because its time is over. -/
theorem Confirmation.eq_of_goOn_eq {settings : WatchSettings} {tx : Hash256} {watch : Watch} {now : Instant}
    {outcome : Except Error Unit} (ends : goOn settings tx watch now = .inr outcome) :
    outcome = .error (.unconfirmed tx) := by
  rw [goOn] at ends
  split at ends
  · cases ends
    rfl
  · cases ends

/-- Only the node's word for the transaction ends the wait for it well. -/
theorem Confirmation.resume_eq_ok {settings : WatchSettings} {tx : Hash256} {now : Instant}
    {phase : Phase} {reply : (await tx phase).Reply}
    (resumed : resume settings tx now phase reply = .inr (.ok ())) :
    (await tx phase).exchange? reply = some ⟨PoolQuery.isConfirmed tx, .ok true⟩ := by
  cases phase with
  | waiting watch =>
      cases reply with
      | due => cases resumed
      | cancelled => cases resumed
  | polling watch =>
      cases reply with
      | ok confirmed =>
          cases confirmed with
          | true => rfl
          | false => cases eq_of_goOn_eq resumed
      | error error =>
          simp only [resume, answered] at resumed
          split at resumed
          · cases eq_of_goOn_eq resumed
          · cases resumed

end MiningPool
