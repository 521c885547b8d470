/-
Module: MiningPool.Proofs.Ledger.Shares
Purpose: the shares in a ledger and what a step does to them.
Main exports: Ledger.shares, Ledger.sharesOf, Ledger.Part.arrival?, Ledger.Part.Change.perm_shares,
  Ledger.Part.Change.perm_sharesOf
-/
import MiningPool.Proofs.Ledger.Invariant

/-!
A share comes into the ledger when a request to add it has waited for the ledger, and it stays in the
claim that is open then: submitting sorts the claim, and everything else leaves its shares alone.
-/

namespace MiningPool

/-- All shares in a list of slots. -/
def Slots.shares (slots : Slots) : List Share := slots.flatMap (·.2.claim.shares)

/-- Setting a slot exchanges the shares of its claim. -/
theorem Slots.Ascending.perm_shares_insert {slots : Slots} (ascending : slots.Ascending)
    {number : Nat} {old : Slot} (found : slots.get? number = some old) (slot : Slot) :
    (old.claim.shares ++ (slots.insert number slot).shares).Perm
      (slot.claim.shares ++ slots.shares) := by
  obtain ⟨before, after, split, inserted⟩ := ascending.exists_split found
  rw [inserted, split]
  simp only [Slots.shares, List.flatMap_append, List.flatMap_cons]
  -- Both sides have the four lists in another order.
  rw [List.perm_iff_count]
  intro share
  simp only [List.count_append]
  omega

namespace Ledger

variable {settings : LedgerSettings} {threshold : Nat} {ledger after : Ledger}

/-- All shares in a ledger. -/
def shares (ledger : Ledger) : List Share := ledger.slots.shares

/-- The shares in the claim with a number. -/
def sharesOf (ledger : Ledger) (number : Nat) : List Share := (ledger.claimOf number).shares

theorem sharesOf_eq {number : Nat} {slot : Slot}
    (found : ledger.slots.get? number = some slot) :
    ledger.sharesOf number = slot.claim.shares := by
  rw [sharesOf, claimOf_eq found]

/-! ### What becomes of the shares in one step -/

namespace WellFormed

theorem perm_shares_add (wellFormed : ledger.WellFormed threshold) (share : Share) :
    (ledger.add share).1.shares.Perm (share :: ledger.shares) := by
  have exchanged := wellFormed.ascending.perm_shares_insert wellFormed.collecting
    ⟨ledger.openClaim.push share, .collecting⟩
  rw [Claim.push, List.append_assoc] at exchanged
  rw [wellFormed.add_eq]
  exact (List.perm_append_left_iff _).1 exchanged

theorem sharesOf_add (wellFormed : ledger.WellFormed threshold) (share : Share) (number : Nat) :
    (ledger.add share).1.sharesOf number =
      ledger.sharesOf number ++ if number = ledger.current then [share] else [] := by
  rw [wellFormed.add_eq]
  split
  · rename_i isCurrent
    subst isCurrent
    rw [sharesOf_eq wellFormed.collecting, sharesOf_eq (Slots.get?_insert_self _ _ _)]
    rfl
  · rename_i different
    rw [sharesOf, claimOf, Slots.get?_insert_of_ne different, List.append_nil]
    rfl

theorem perm_shares_accept (wellFormed : ledger.WellFormed threshold) {rotation : Rotation}
    (due : ledger.due threshold = .ok (some rotation)) (tx : Hash256) :
    (ledger.accept rotation tx).shares.Perm ledger.shares := by
  obtain ⟨number, claim, _, _⟩ := wellFormed.of_due_eq due
  have exchanged := wellFormed.ascending.perm_shares_insert wellFormed.collecting
    ⟨rotation.claim, .submitted tx⟩
  have sorted : rotation.claim.shares.Perm ledger.openClaim.shares := by
    rw [claim]
    exact ledger.openClaim.perm_sorted
  have filed := (List.perm_append_left_iff _).1 (exchanged.trans (sorted.append_right _))
  rw [shares, wellFormed.slots_accept number, Slots.shares, List.flatMap_append]
  simpa [Slot.fresh, Claim.empty, shares, Slots.shares] using filed

theorem perm_sharesOf_accept (wellFormed : ledger.WellFormed threshold) {rotation : Rotation}
    (due : ledger.due threshold = .ok (some rotation)) (tx : Hash256) (number : Nat) :
    ((ledger.accept rotation tx).sharesOf number).Perm (ledger.sharesOf number) := by
  obtain ⟨isCurrent, claim, _, _⟩ := wellFormed.of_due_eq due
  rw [sharesOf, claimOf, get?_accept]
  split
  · rename_i isNext
    have missing : ledger.slots.get? number = none := by
      rw [← Option.not_isSome_iff_eq_none, wellFormed.get?_isSome]
      omega
    rw [sharesOf, claimOf, missing]
    rfl
  · split
    · rename_i same
      rw [same, isCurrent, sharesOf_eq wellFormed.collecting, claim]
      exact ledger.openClaim.perm_sorted
    · rfl

theorem perm_shares_verify (wellFormed : ledger.WellFormed threshold) (number : Nat)
    (tx : Hash256) : (ledger.verify number tx).shares.Perm ledger.shares := by
  rw [Ledger.verify]
  split
  · rename_i slot found
    exact (List.perm_append_left_iff _).1 (wellFormed.ascending.perm_shares_insert found _)
  · rfl

end WellFormed

theorem sharesOf_verify (number other : Nat) (tx : Hash256) :
    (ledger.verify number tx).sharesOf other = ledger.sharesOf other := by
  rw [sharesOf, claimOf, get?_verify]
  split
  · rename_i same
    rw [sharesOf, claimOf, same]
    cases ledger.slots.get? number <;> rfl
  · rfl

/-- The share that comes into the ledger when an activity goes on. -/
def Part.arrival? (ledger : Ledger) : Part → Option Share
  | rotation (.entering (some share)) => if share.counter ∈ ledger.counters then none else some share
  | _ => none

namespace Part

variable {part : Part} {exchange : Option (Exchange pool)}

theorem arrival?_eq_some {share : Share} :
    part.arrival? ledger = some share ↔
      part = .rotation (.entering (some share)) ∧ share.counter ∉ ledger.counters := by
  constructor
  · intro arrives
    unfold arrival? at arrives
    split at arrives
    · split at arrives
      · cases arrives
      · rename_i new
        cases arrives
        exact ⟨rfl, new⟩
    · cases arrives
  · rintro ⟨rfl, new⟩
    exact if_neg new

namespace Change

/-- What is not taken in has been known. -/
theorem arrival?_eq_none_of_keep
    (known : ∀ share, part = .rotation (.entering (some share)) → share.counter ∈ ledger.counters) :
    part.arrival? ledger = none := by
  cases arrives : part.arrival? ledger with
  | none => rfl
  | some share =>
      obtain ⟨entering, new⟩ := arrival?_eq_some.1 arrives
      exact absurd (known share entering) new

variable (wellFormed : ledger.WellFormed settings.shareThreshold)
  (sound : part.Sound settings ledger) (change : Change settings ledger part exchange after)

include wellFormed sound change

theorem perm_shares : after.shares.Perm ((part.arrival? ledger).toList ++ ledger.shares) := by
  cases change with
  | keep known refused =>
      rw [arrival?_eq_none_of_keep known]
      rfl
  | add new =>
      rw [arrival?_eq_some.2 ⟨rfl, new⟩]
      exact wellFormed.perm_shares_add _
  | accept tx => exact wellFormed.perm_shares_accept sound tx
  | verify => exact wellFormed.perm_shares_verify _ _

theorem perm_sharesOf (number : Nat) :
    (after.sharesOf number).Perm (ledger.sharesOf number ++
      if number = ledger.current then (part.arrival? ledger).toList else []) := by
  cases change with
  | keep known refused =>
      rw [arrival?_eq_none_of_keep known]
      simp
  | add new =>
      rw [arrival?_eq_some.2 ⟨rfl, new⟩, wellFormed.sharesOf_add]
      rfl
  | accept tx => simpa [arrival?] using wellFormed.perm_sharesOf_accept sound tx number
  | verify =>
      rw [sharesOf_verify]
      simp [arrival?]

end Change

end Part

end Ledger

end MiningPool
