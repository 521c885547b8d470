/-
Module: MiningPool.Proofs.Ledger.WellFormed
Purpose: what holds of a ledger at every time, and what can become of a claim.
Main exports: Ledger.WellFormed, Ledger.Advances, Ledger.WellFormed.add, Ledger.WellFormed.accept,
  Ledger.WellFormed.verify
-/
import MiningPool.Proofs.Claim.Tree
import MiningPool.Proofs.Ledger.Slots

/-!
One claim collects shares, and its counters are remembered. All claims before it have been filed: they
were large enough, they are in the order of their counters, and they do not change any more except that
a submitted claim becomes a verified one.
-/

namespace MiningPool

/-- The counters of the shares in a claim. -/
def Claim.counters (claim : Claim) : List Nat := claim.shares.map Share.counter

theorem Claim.counters_push (claim : Claim) (share : Share) :
    (claim.push share).counters = claim.counters ++ [share.counter] := by
  simp [counters, push]

theorem Claim.perm_counters_sorted (claim : Claim) : claim.sorted.counters.Perm claim.counters :=
  claim.perm_sorted.map Share.counter

/-- A claim that the contract has accepted. -/
structure Slot.Filed (threshold : Nat) (slot : Slot) : Prop where
  status : slot.status ≠ .collecting
  ascending : slot.claim.shares.Pairwise fun earlier later => earlier.counter < later.counter
  size : threshold ≤ slot.claim.size

/-- From open to submitted to verified. -/
inductive ClaimStatus.Advances : ClaimStatus → ClaimStatus → Prop where
  | same (status : ClaimStatus) : Advances status status
  | submit (tx : Hash256) : Advances .collecting (.submitted tx)
  | verify (tx proofTx : Hash256) : Advances (.submitted tx) (.verified proofTx)

namespace Ledger

variable {threshold : Nat} {ledger : Ledger}

/-- The claim with a number. -/
def claimOf (ledger : Ledger) (number : Nat) : Claim :=
  ((ledger.slots.get? number).map (·.claim)).getD Claim.empty

/-- The claim that collects shares. -/
def openClaim (ledger : Ledger) : Claim := ledger.claimOf ledger.current

/-- What holds of a ledger at every time. -/
structure WellFormed (threshold : Nat) (ledger : Ledger) : Prop where
  numbers : ledger.slots.map (·.1) = List.range (ledger.current + 1)
  collecting : ledger.slots.get? ledger.current = some ⟨ledger.openClaim, .collecting⟩
  counters : ∀ counter, counter ∈ ledger.counters ↔ counter ∈ ledger.openClaim.counters
  distinct : ∀ {number slot}, ledger.slots.get? number = some slot → slot.claim.counters.Nodup
  filed : ∀ {number slot}, number < ledger.current → ledger.slots.get? number = some slot →
    slot.Filed threshold

/-- What one step can change: claims are added but never taken away, and a claim that has been submitted
keeps its shares. -/
structure Advances (before after : Ledger) : Prop where
  current : before.current ≤ after.current
  claims : ∀ {number slot}, before.slots.get? number = some slot →
    ∃ later, after.slots.get? number = some later ∧ slot.status.Advances later.status ∧
      (slot.status ≠ .collecting → later.claim = slot.claim)

theorem Advances.refl (ledger : Ledger) : ledger.Advances ledger where
  current := Nat.le_refl _
  claims := fun {_ slot} found => ⟨slot, found, .same _, fun _ => rfl⟩

theorem claimOf_eq {number : Nat} {slot : Slot} (found : ledger.slots.get? number = some slot) :
    ledger.claimOf number = slot.claim := by
  rw [claimOf, found]
  rfl

theorem get?_accept {rotation : Rotation} {tx : Hash256} {number : Nat} :
    (ledger.accept rotation tx).slots.get? number =
      if number = rotation.number + 1 then some Slot.fresh
      else if number = rotation.number then some ⟨rotation.claim, .submitted tx⟩
      else ledger.slots.get? number := by
  rw [accept]
  split
  · rename_i isNext
    rw [isNext, Slots.get?_insert_self]
  · rename_i notNext
    rw [Slots.get?_insert_of_ne notNext]
    split
    · rename_i same
      rw [same, Slots.get?_insert_self]
    · rename_i different
      rw [Slots.get?_insert_of_ne different]

theorem WellFormed.fresh : Ledger.fresh.WellFormed threshold where
  numbers := rfl
  collecting := rfl
  counters := by
    intro counter
    exact Iff.rfl
  distinct := by
    intro number slot found
    have member := Slots.mem_of_get?_eq_some found
    obtain ⟨_, rfl⟩ := Prod.mk.inj (List.mem_singleton.1 member)
    exact List.nodup_nil
  filed := by
    intro number slot below
    cases below

namespace WellFormed

theorem ascending (wellFormed : ledger.WellFormed threshold) : ledger.slots.Ascending := by
  have numbers : (ledger.slots.map (·.1)).Pairwise (· < ·) := by
    rw [wellFormed.numbers]
    exact List.pairwise_lt_range
  exact List.pairwise_map.1 numbers

theorem get?_isSome (wellFormed : ledger.WellFormed threshold) {number : Nat} :
    (ledger.slots.get? number).isSome ↔ number ≤ ledger.current := by
  rw [Slots.get?_isSome_iff, wellFormed.numbers, List.mem_range, Nat.lt_succ_iff]

/-- All claims before the open one have been filed. -/
theorem exists_filed (wellFormed : ledger.WellFormed threshold) {number : Nat}
    (below : number < ledger.current) :
    ∃ slot, ledger.slots.get? number = some slot ∧ slot.Filed threshold := by
  have present : (ledger.slots.get? number).isSome := wellFormed.get?_isSome.2 (Nat.le_of_lt below)
  obtain ⟨slot, found⟩ := Option.isSome_iff_exists.1 present
  exact ⟨slot, found, wellFormed.filed below found⟩

theorem currentSlot_eq (wellFormed : ledger.WellFormed threshold) :
    ledger.currentSlot = .ok ⟨ledger.openClaim, .collecting⟩ := by
  rw [currentSlot, wellFormed.collecting]

/-! ### Taking in a share -/

theorem add_eq (wellFormed : ledger.WellFormed threshold) (share : Share) :
    ledger.add share =
      (⟨ledger.slots.insert ledger.current ⟨ledger.openClaim.push share, .collecting⟩,
        ledger.current, share.counter :: ledger.counters⟩, .ok ()) := by
  have found : ({ ledger with counters := share.counter :: ledger.counters } : Ledger).currentSlot =
      .ok ⟨ledger.openClaim, .collecting⟩ := wellFormed.currentSlot_eq
  rw [Ledger.add]
  simp only [found]

theorem openClaim_add (wellFormed : ledger.WellFormed threshold) (share : Share) :
    (ledger.add share).1.openClaim = ledger.openClaim.push share := by
  rw [wellFormed.add_eq]
  simp [openClaim, claimOf]

theorem add (wellFormed : ledger.WellFormed threshold) {share : Share}
    (new : share.counter ∉ ledger.counters) : (ledger.add share).1.WellFormed threshold where
  numbers := by
    rw [wellFormed.add_eq]
    exact (wellFormed.ascending.map_fst_insert wellFormed.collecting _).trans wellFormed.numbers
  collecting := by
    rw [wellFormed.openClaim_add, wellFormed.add_eq]
    exact Slots.get?_insert_self _ _ _
  counters := by
    intro counter
    rw [wellFormed.openClaim_add, wellFormed.add_eq, Claim.counters_push, List.mem_append,
      List.mem_singleton, List.mem_cons, wellFormed.counters, or_comm]
  distinct := by
    intro number slot found
    rw [wellFormed.add_eq] at found
    by_cases isCurrent : number = ledger.current
    · subst isCurrent
      rw [Slots.get?_insert_self] at found
      cases found
      rw [Claim.counters_push]
      have before := wellFormed.distinct wellFormed.collecting
      rw [wellFormed.counters] at new
      exact (List.perm_append_singleton _ _).nodup_iff.2 (List.nodup_cons.2 ⟨new, before⟩)
    · rw [Slots.get?_insert_of_ne isCurrent] at found
      exact wellFormed.distinct found
  filed := by
    intro number slot below found
    rw [wellFormed.add_eq] at below found
    rw [Slots.get?_insert_of_ne (Nat.ne_of_lt below)] at found
    exact wellFormed.filed below found

theorem advances_add (wellFormed : ledger.WellFormed threshold) (share : Share) :
    ledger.Advances (ledger.add share).1 := by
  rw [wellFormed.add_eq]
  refine ⟨Nat.le_refl _, ?_⟩
  intro number slot found
  by_cases isCurrent : number = ledger.current
  · subst isCurrent
    rw [wellFormed.collecting] at found
    cases found
    exact ⟨_, Slots.get?_insert_self _ _ _, .same _, fun isFiled => absurd rfl isFiled⟩
  · exact ⟨slot, by rw [Slots.get?_insert_of_ne isCurrent, found], .same _, fun _ => rfl⟩

/-! ### Submitting a claim -/

/-- What is submitted: the open claim in the order of its counters, if it is large enough. -/
theorem of_due_eq (wellFormed : ledger.WellFormed threshold) {rotation : Rotation}
    (due : ledger.due threshold = .ok (some rotation)) :
    rotation.number = ledger.current ∧ rotation.claim = ledger.openClaim.sorted ∧
      threshold ≤ ledger.openClaim.size ∧
      ledger.openClaim.sorted.summary = .ok rotation.summary := by
  simp only [Ledger.due, wellFormed.currentSlot_eq, bind, Except.bind] at due
  split at due
  · cases due
  · rename_i large
    split at due
    · cases due
    · rename_i summary summarized
      cases due
      exact ⟨rfl, rfl, Nat.le_of_not_lt large, summarized⟩

theorem filed_sorted (wellFormed : ledger.WellFormed threshold)
    (large : threshold ≤ ledger.openClaim.size) (tx : Hash256) :
    (⟨ledger.openClaim.sorted, .submitted tx⟩ : Slot).Filed threshold where
  status := by
    intro same
    cases same
  ascending := by
    have distinct := wellFormed.distinct wellFormed.collecting
    have nodup := ledger.openClaim.perm_counters_sorted.nodup_iff.2 distinct
    have different : ledger.openClaim.sorted.shares.Pairwise
        fun earlier later => earlier.counter ≠ later.counter := List.pairwise_map.1 nodup
    exact (ledger.openClaim.inOrder_sorted.and different).imp
      fun both => Nat.lt_of_le_of_ne both.1 both.2
  size := by
    rw [Claim.size_sorted]
    exact large

/-- The next claim comes after all others. -/
theorem slots_accept (wellFormed : ledger.WellFormed threshold) {rotation : Rotation}
    (number : rotation.number = ledger.current) (tx : Hash256) :
    (ledger.accept rotation tx).slots =
      ledger.slots.insert ledger.current ⟨rotation.claim, .submitted tx⟩ ++
        [(ledger.current + 1, Slot.fresh)] := by
  have below : ∀ entry ∈ ledger.slots.insert ledger.current ⟨rotation.claim, .submitted tx⟩,
      entry.1 < ledger.current + 1 := by
    intro entry member
    have listed := List.mem_map_of_mem (f := (·.1)) member
    rw [wellFormed.ascending.map_fst_insert wellFormed.collecting, wellFormed.numbers] at listed
    exact List.mem_range.1 listed
  rw [accept, number]
  exact Slots.insert_of_forall_lt below _

theorem accept (wellFormed : ledger.WellFormed threshold) {rotation : Rotation}
    (due : ledger.due threshold = .ok (some rotation)) (tx : Hash256) :
    (ledger.accept rotation tx).WellFormed threshold := by
  obtain ⟨number, claim, large, _⟩ := wellFormed.of_due_eq due
  have opened : (ledger.accept rotation tx).slots.get? (rotation.number + 1) = some Slot.fresh := by
    rw [get?_accept, if_pos rfl]
  have openClaim : (ledger.accept rotation tx).openClaim = Claim.empty := claimOf_eq opened
  refine ⟨?_, ?_, ?_, ?_, ?_⟩
  · rw [wellFormed.slots_accept number, List.map_append,
      wellFormed.ascending.map_fst_insert wellFormed.collecting, wellFormed.numbers]
    show _ = List.range (rotation.number + 1 + 1)
    rw [number]
    exact List.range_succ.symm
  · rw [openClaim]
    exact opened
  · intro counter
    rw [openClaim]
    exact Iff.rfl
  · intro other slot found
    rw [get?_accept] at found
    split at found
    · cases found
      exact List.nodup_nil
    · split at found
      · cases found
        rw [claim]
        exact ledger.openClaim.perm_counters_sorted.nodup_iff.2
          (wellFormed.distinct wellFormed.collecting)
      · exact wellFormed.distinct found
  · intro other slot below found
    have below : other < rotation.number + 1 := below
    rw [get?_accept, if_neg (Nat.ne_of_lt below)] at found
    split at found
    · cases found
      rw [claim]
      exact wellFormed.filed_sorted large tx
    · exact wellFormed.filed (by omega) found

theorem advances_accept (wellFormed : ledger.WellFormed threshold) {rotation : Rotation}
    (due : ledger.due threshold = .ok (some rotation)) (tx : Hash256) :
    ledger.Advances (ledger.accept rotation tx) := by
  obtain ⟨isCurrent, _, _, _⟩ := wellFormed.of_due_eq due
  refine ⟨?_, ?_⟩
  · show ledger.current ≤ rotation.number + 1
    omega
  · intro number slot found
    have old : number ≤ ledger.current := wellFormed.get?_isSome.1 (by rw [found]; rfl)
    rw [get?_accept, if_neg (by omega)]
    split
    · rename_i same
      subst same
      rw [isCurrent, wellFormed.collecting] at found
      cases found
      exact ⟨_, rfl, .submit tx, fun isFiled => absurd rfl isFiled⟩
    · exact ⟨slot, found, .same _, fun _ => rfl⟩

end WellFormed

/-! ### Verifying a claim -/

theorem awaitingAudit?_eq_some {number : Nat} {slot : Slot} {target : AuditTarget}
    (awaiting : awaitingAudit? number slot = some target) :
    number = target.number ∧ slot = ⟨target.claim, .submitted target.tx⟩ := by
  obtain ⟨claim, status⟩ := slot
  cases status with
  | submitted tx =>
      cases awaiting
      exact ⟨rfl, rfl⟩
  | collecting => cases awaiting
  | verified tx => cases awaiting

theorem get?_verify {number other : Nat} {tx : Hash256} :
    (ledger.verify number tx).slots.get? other =
      if other = number then
        (ledger.slots.get? number).map fun slot => { slot with status := .verified tx }
      else ledger.slots.get? other := by
  rw [verify]
  split
  · rename_i slot found
    split
    · rename_i same
      rw [same, found]
      exact Slots.get?_insert_self _ _ _
    · rename_i different
      exact Slots.get?_insert_of_ne different _ _
  · rename_i missing
    split
    · rename_i same
      rw [same, missing]
      rfl
    · rfl

theorem current_verify (number : Nat) (tx : Hash256) :
    (ledger.verify number tx).current = ledger.current := by
  rw [verify]
  split <;> rfl

theorem counters_verify (number : Nat) (tx : Hash256) :
    (ledger.verify number tx).counters = ledger.counters := by
  rw [verify]
  split <;> rfl

theorem advances_verify {number : Nat} {claim : Claim} {tx : Hash256}
    (submitted : ledger.slots.get? number = some ⟨claim, .submitted tx⟩) (proofTx : Hash256) :
    ledger.Advances (ledger.verify number proofTx) := by
  refine ⟨Nat.le_of_eq (current_verify _ _).symm, ?_⟩
  intro other slot found
  rw [get?_verify]
  split
  · rename_i same
    rw [same, submitted] at found
    cases found
    rw [submitted]
    exact ⟨_, rfl, .verify tx proofTx, fun _ => rfl⟩
  · exact ⟨slot, found, .same _, fun _ => rfl⟩

namespace WellFormed

theorem lt_current (wellFormed : ledger.WellFormed threshold) {number : Nat} {slot : Slot}
    (found : ledger.slots.get? number = some slot) (filed : slot.status ≠ .collecting) :
    number < ledger.current := by
  refine Nat.lt_of_le_of_ne (wellFormed.get?_isSome.1 (by rw [found]; rfl)) ?_
  intro isCurrent
  subst isCurrent
  rw [wellFormed.collecting] at found
  cases found
  exact filed rfl

/-- Only submitted claims are audited. -/
theorem of_auditTarget?_eq (wellFormed : ledger.WellFormed threshold) {policy : AuditPolicy}
    {target : AuditTarget} (targeted : ledger.auditTarget? policy = some target) :
    ledger.slots.get? target.number = some ⟨target.claim, .submitted target.tx⟩ := by
  cases policy with
  | previous =>
      rw [auditTarget?] at targeted
      split at targeted
      · cases targeted
      · obtain ⟨slot, found, awaiting⟩ := Option.bind_eq_some_iff.1 targeted
        obtain ⟨rfl, rfl⟩ := awaitingAudit?_eq_some awaiting
        exact found
  | oldestUnverified =>
      obtain ⟨⟨number, slot⟩, member, awaiting⟩ := List.exists_of_findSome?_eq_some targeted
      obtain ⟨rfl, rfl⟩ := awaitingAudit?_eq_some awaiting
      exact wellFormed.ascending.get?_eq_some member

theorem openClaim_verify (wellFormed : ledger.WellFormed threshold) {number : Nat}
    (below : number < ledger.current) (tx : Hash256) :
    (ledger.verify number tx).openClaim = ledger.openClaim := by
  have same : (ledger.verify number tx).slots.get? (ledger.verify number tx).current =
      some ⟨ledger.openClaim, .collecting⟩ := by
    rw [current_verify, get?_verify, if_neg (Nat.ne_of_gt below), wellFormed.collecting]
  exact claimOf_eq same

theorem verify (wellFormed : ledger.WellFormed threshold) {number : Nat}
    (below : number < ledger.current) (tx : Hash256) :
    (ledger.verify number tx).WellFormed threshold := by
  refine ⟨?_, ?_, ?_, ?_, ?_⟩
  · rw [current_verify, Ledger.verify]
    split
    · rename_i slot found
      exact (wellFormed.ascending.map_fst_insert found _).trans wellFormed.numbers
    · exact wellFormed.numbers
  · rw [wellFormed.openClaim_verify below, current_verify, get?_verify,
      if_neg (Nat.ne_of_gt below)]
    exact wellFormed.collecting
  · rw [wellFormed.openClaim_verify below, counters_verify]
    exact wellFormed.counters
  · intro other slot found
    rw [get?_verify] at found
    split at found
    · obtain ⟨before, foundBefore, rfl⟩ := Option.map_eq_some_iff.1 found
      have distinct := wellFormed.distinct foundBefore
      exact distinct
    · exact wellFormed.distinct found
  · intro other slot otherBelow found
    rw [current_verify] at otherBelow
    rw [get?_verify] at found
    split at found
    · obtain ⟨before, foundBefore, rfl⟩ := Option.map_eq_some_iff.1 found
      have filed := wellFormed.filed below foundBefore
      exact ⟨ClaimStatus.noConfusion, filed.ascending, filed.size⟩
    · exact wellFormed.filed otherBelow found

end WellFormed

end Ledger

end MiningPool
