/-
Module: MiningPool.Proofs.Claim.Order
Purpose: what is made of a claim does not depend on the order of its shares.
Main exports: Claim.sorted_eq_of_perm, Claim.summary_eq_of_perm, Proving.gather,
  Proving.gather_eq_of_perm
-/
import Mathlib.Data.List.Nodup
import MiningPool.Claim.Proving
import MiningPool.Proofs.Claim.Tree

/-!
Summaries and proofs are made of the shares in the order of their counters. If no two shares have the same
counter, there is only one such order. Shares with equal counters would keep the order in which they came,
and the claim could tell who was first.
-/

namespace MiningPool

namespace Claim

variable {left right : Claim}

theorem eq_of_counter_eq {shares : List Share} (distinct : (shares.map Share.counter).Nodup)
    {one other : Share} (oneIn : one ∈ shares) (otherIn : other ∈ shares)
    (same : one.counter = other.counter) : one = other :=
  List.inj_on_of_nodup_map distinct oneIn otherIn same

theorem sorted_eq_of_perm (perm : left.shares.Perm right.shares)
    (distinct : (left.shares.map Share.counter).Nodup) : left.sorted = right.sorted := by
  have permSorted : left.sorted.shares.Perm right.sorted.shares :=
    left.perm_sorted.trans (perm.trans right.perm_sorted.symm)
  have same : left.sorted.shares = right.sorted.shares := by
    apply permSorted.eq_of_pairwise _ left.inOrder_sorted right.inOrder_sorted
    intro one other oneIn otherIn before after
    apply eq_of_counter_eq distinct
    · exact left.perm_sorted.mem_iff.1 oneIn
    · exact perm.mem_iff.2 (right.perm_sorted.mem_iff.1 otherIn)
    · exact Nat.le_antisymm before after
  calc left.sorted = ⟨left.sorted.shares⟩ := rfl
    _ = ⟨right.sorted.shares⟩ := by rw [same]
    _ = right.sorted := rfl

theorem minDifficulty_eq_of_perm (perm : left.shares.Perm right.shares) :
    left.minDifficulty = right.minDifficulty := by
  have difficulties : (left.shares.map (·.difficulty)).Perm (right.shares.map (·.difficulty)) :=
    perm.map _
  rw [minDifficulty, minDifficulty]
  cases least : (left.shares.map (·.difficulty)).min? with
  | none =>
      rw [List.min?_eq_none_iff] at least
      rw [least] at difficulties
      rw [← difficulties.nil_eq]
      rfl
  | some difficulty =>
      obtain ⟨member, below⟩ := List.min?_eq_some_iff.1 least
      symm
      rw [List.min?_eq_some_iff]
      constructor
      · exact difficulties.mem_iff.1 member
      · intro other otherIn
        exact below other (difficulties.mem_iff.2 otherIn)

theorem summary_eq_of_perm (perm : left.shares.Perm right.shares)
    (distinct : (left.shares.map Share.counter).Nodup) : left.summary = right.summary := by
  have sizes : left.size = right.size := perm.length_eq
  rw [summary, summary, minDifficulty_eq_of_perm perm, sorted_eq_of_perm perm distinct, sizes]

end Claim

theorem AuditedShare.select_eq_of_perm {left right : Claim} (perm : left.shares.Perm right.shares)
    (distinct : (left.shares.map Share.counter).Nodup) (index : Nat) : select left index = select right index := by
  rw [select, select, Claim.sorted_eq_of_perm perm distinct]

/-- An activity comes to its end if it waits for something and does so from all states that one step leads
to. -/
theorem Activity.isSome_run {I : Interface} {ρ σ α ω : Type} {activity : Activity I ρ σ α}
    {environment : Environment I ω} {steps : Nat} {data : ρ} {memory : ω} {state : σ}
    (waits : activity.await state ≠ .never)
    (further : ∀ now reply after next, activity.resume data now state reply = (after, .inl next) →
      ∀ memory, (activity.run environment steps after memory next).isSome) :
    (activity.run environment (steps + 1) data memory state).isSome := by
  obtain ⟨reply, later, answered⟩ := environment.exists_reply?_eq_some memory waits
  rw [run, step, answered]
  cases resumed : activity.resume data (environment.now later) state reply with
  | mk after outcome =>
      cases outcome with
      | inl next =>
          simp only [resumed]
          exact further _ _ _ _ resumed later
      | inr result =>
          simp only [resumed]
          rfl

namespace Proving

variable {ω : Type} {datasets : DatasetLocator} {environment : Environment pool ω} {memory : ω}

/-- Gathers the proof for a share of the claim with what the environment answers; three answers are
enough. -/
def gather (datasets : DatasetLocator) (environment : Environment pool ω) (memory : ω) (claim : Claim)
    (index : Nat) : Option (Except Error VerificationProof) :=
  match start claim index with
  | .error error => some (.error error)
  | .ok phase => ((activity datasets).run environment 3 () memory phase).map (·.1)

theorem gather_isSome (claim : Claim) (index : Nat) :
    (gather datasets environment memory claim index).isSome := by
  have dataset (audited : AuditedShare) (indices : List Nat) (path : String) (memory : ω) :
      ((activity datasets).run environment 1 () memory (.dataset audited indices path)).isSome := by
    apply Activity.isSome_run (show Await.ask _ ≠ .never from nofun)
    intro now reply data next resumed
    cases resumed
  have seed (audited : AuditedShare) (indices : List Nat) (memory : ω) :
      ((activity datasets).run environment 2 () memory (.seed audited indices)).isSome := by
    apply Activity.isSome_run (show Await.ask _ ≠ .never from nofun)
    intro now reply data next resumed memory
    cases reply with
    | error error => cases resumed
    | ok seed =>
        cases resumed
        apply dataset
  rw [gather, start]
  cases selected : AuditedShare.select claim index with
  | error error => rfl
  | ok audited =>
      show (((activity datasets).run environment 3 () memory (.indices audited)).map (·.1)).isSome
      rw [Option.isSome_map]
      apply Activity.isSome_run (show Await.ask _ ≠ .never from nofun)
      intro now reply data next resumed memory
      cases reply with
      | error error => cases resumed
      | ok indices =>
          cases resumed
          apply seed

theorem gather_eq_of_perm {left right : Claim} (perm : left.shares.Perm right.shares)
    (distinct : (left.shares.map Share.counter).Nodup) (index : Nat) :
    gather datasets environment memory left index =
      gather datasets environment memory right index := by
  rw [gather, gather, start, start, AuditedShare.select_eq_of_perm perm distinct]

end Proving

end MiningPool
