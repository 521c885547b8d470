/-
Module: MiningPool.Proofs.Ledger.Serial
Purpose: requests that are served one after the other.
Main exports: Ledger.Served, Ledger.Serial, Ledger.Serial.reachableAfter, Ledger.reachable_busySystem
-/
import MiningPool.Proofs.Claim.Order
import MiningPool.Proofs.Ledger.Program

/-!
If a request comes only after the one before it has been answered, nobody interferes: what it does follows
from the ledger that it finds and from the answers of the contract. Every such sequence of requests is a
run, so that runs can be given by what they do to the ledger.
-/

namespace MiningPool.Ledger

variable {settings : LedgerSettings} {ledger larger after : Ledger} {share : Share} {claim : Claim}
  {status : ClaimStatus}

/-! ### What a request finds -/

theorem enter_of_known (known : share.counter ∈ ledger.counters) :
    Rotation.enter settings ledger (some share) = (ledger, .inr (.ok .duplicate)) := if_pos known

theorem enter_of_new (new : share.counter ∉ ledger.counters)
    (added : ledger.add share = (larger, .ok ())) :
    Rotation.enter settings ledger (some share) = (larger, Rotation.look settings larger) := by
  simp only [Rotation.enter, if_neg new, added]

theorem look_of_small (found : ledger.currentSlot = .ok ⟨claim, status⟩)
    (small : claim.size < settings.shareThreshold) :
    Rotation.look settings ledger = .inr (.ok (.kept none)) := by
  simp only [Rotation.look, due, found, bind, Except.bind, if_pos small]

/-- A claim that is large enough but not too large is due. -/
theorem exists_due_of_large {threshold : Nat} (found : ledger.currentSlot = .ok ⟨claim, status⟩)
    (positive : 1 ≤ threshold) (few : claim.size ≤ 2 ^ (32 : Nat))
    (large : threshold ≤ claim.size) :
    ∃ summary, claim.sorted.summary = .ok summary ∧
      ledger.due threshold = .ok (some ⟨ledger.current, claim.sorted, summary⟩) := by
  have nonempty : 0 < claim.sorted.size := by
    rw [Claim.size_sorted]
    exact Nat.lt_of_lt_of_le positive large
  rw [← Claim.size_sorted] at few
  obtain ⟨summary, summarized⟩ := Claim.exists_summary_eq nonempty few
  refine ⟨summary, summarized, ?_⟩
  simp only [due, found, bind, Except.bind, if_neg (Nat.not_lt.2 large), summarized]

/-! ### Serving one request -/

/-- The request to add the share, or to look at the open claim without one. -/
def Request.ofShare? : Option Share → Request
  | some share => .add share
  | none => .rotate

/-- A request that has been answered. -/
def answeredCall (settings : LedgerSettings) (share? : Option Share)
    (outcome : Except Error Rotation.Outcome) : (program settings).Call :=
  ⟨.ofShare? share?, .inr (.rotated outcome)⟩

/-- What becomes of the ledger and what a request is told if nobody interferes: the look at the ledger
decides, or else the first answer of the contract, if no other attempt follows it. -/
inductive Served (settings : LedgerSettings) (ledger : Ledger) (share? : Option Share) :
    Ledger → Except Error Rotation.Outcome → Prop where
  | atOnce {after : Ledger} {outcome : Except Error Rotation.Outcome}
      (entered : Rotation.enter settings ledger share? = (after, .inr outcome)) :
      Served settings ledger share? after outcome
  | byContract {larger after : Ledger} {rotation : Rotation} {answer : Except Error Hash256}
      {outcome : Except Error Rotation.Outcome}
      (entered : Rotation.enter settings ledger share? =
        (larger, .inl (.submitting rotation (Retry.start settings.retry))))
      (final : Retry.resume (I := pool) settings.retry (.submitClaim rotation.summary)
        (Retry.start settings.retry) answer = .inr answer)
      (concluded : Rotation.conclude larger rotation answer = (after, outcome)) :
      Served settings ledger share? after outcome

theorem Served.of_known (known : share.counter ∈ ledger.counters) :
    Served settings ledger (some share) ledger (.ok .duplicate) :=
  .atOnce (enter_of_known known)

/-- Without a share and with too few of them in the open claim there is nothing to do. -/
theorem Served.of_unripe (found : ledger.currentSlot = .ok ⟨claim, status⟩)
    (small : claim.size < settings.shareThreshold) :
    Served settings ledger none ledger (.ok (.kept none)) :=
  .atOnce (by rw [Rotation.enter, look_of_small found small])

section

variable (new : share.counter ∉ ledger.counters) (added : ledger.add share = (larger, .ok ()))
  (found : larger.currentSlot = .ok ⟨claim, status⟩)

include new added found

/-- A share that does not make the open claim large enough is only kept. -/
theorem Served.of_small (small : claim.size < settings.shareThreshold) :
    Served settings ledger (some share) larger (.ok (.kept none)) :=
  .atOnce (by rw [enter_of_new new added, look_of_small found small])

variable (positive : 1 ≤ settings.shareThreshold) (few : claim.size ≤ 2 ^ (32 : Nat))
  (large : settings.shareThreshold ≤ claim.size)

include positive few large

/-- A share that makes the open claim large enough has it submitted. -/
theorem exists_enter_of_large :
    ∃ summary, claim.sorted.summary = .ok summary ∧
      Rotation.enter settings ledger (some share) = (larger,
        .inl (.submitting ⟨larger.current, claim.sorted, summary⟩ (Retry.start settings.retry))) := by
  obtain ⟨summary, summarized, due⟩ := exists_due_of_large found positive few large
  exact ⟨summary, summarized, by rw [enter_of_new new added, Rotation.look, due]⟩

theorem Served.exists_accepted (tx : Hash256) :
    ∃ summary, claim.sorted.summary = .ok summary ∧
      Served settings ledger (some share)
        (larger.accept ⟨larger.current, claim.sorted, summary⟩ tx)
        (.ok (.kept (some ⟨larger.current, tx, summary⟩))) := by
  obtain ⟨summary, summarized, entered⟩ := exists_enter_of_large new added found positive few large
  have final : Retry.resume (I := pool) settings.retry (.submitClaim summary)
      (Retry.start settings.retry) (.ok tx) = .inr (.ok tx) := rfl
  exact ⟨summary, summarized, .byContract entered final rfl⟩

/-- If no other attempt follows, the share stays in the open claim. -/
theorem Served.of_refused {error : Error}
    (final : ∀ query, Retry.resume (I := pool) settings.retry (.submitClaim query)
      (Retry.start settings.retry) (.error error) = .inr (.error error)) :
    Served settings ledger (some share) larger (.error error) := by
  obtain ⟨_, _, entered⟩ := exists_enter_of_large new added found positive few large
  exact .byContract entered (final _) rfl

end

/-- While nobody holds a lock, a new request is served. -/
theorem Served.reachableAfter {early : List (program settings).Event}
    {calls : List (program settings).Call} {share? : Option Share}
    {outcome : Except Error Rotation.Outcome} (served : Served settings ledger share? after outcome)
    (idle : ∀ call ∈ calls, call.held = [])
    (reachable : Program.ReachableAfter early ⟨ledger, calls, false⟩) :
    Program.ReachableAfter early
      ⟨after, calls ++ [answeredCall settings share? outcome], false⟩ := by
  have arrived := reachable.arrive (.ofShare? share?) 0
  have begun : (program settings).begin (.ofShare? share?) ledger 0 =
      .inl (.rotating (.entering share?)) := by
    cases share? <;> rfl
  rw [begun] at arrived
  cases served with
  | atOnce entered =>
      have resumed : resume settings ledger 0 (.rotating (.entering share?)) () =
          (after, .inr (.rotated outcome)) := by
        simp only [resume, Rotation.resume, entered, Sum.map_inr]
      exact arrived.move_last idle 0 () (fun _ _ => List.not_mem_nil) id resumed
  | @byContract larger _ rotation answer _ entered final concluded =>
      have resumed : resume settings ledger 0 (.rotating (.entering share?)) () =
          (larger, .inl (.rotating (.submitting rotation (Retry.start settings.retry)))) := by
        simp only [resume, Rotation.resume, entered, Sum.map_inl]
      have asking := arrived.move_last idle 0 () (fun _ _ => List.not_mem_nil) id resumed
      have decided : resume settings larger 0
          (.rotating (.submitting rotation (Retry.start settings.retry))) answer =
            (after, .inr (.rotated outcome)) := by
        simp only [resume, Rotation.resume, final, concluded, Sum.map_inr]
      exact asking.move_last idle 0 answer (Await.free_of_lockless rfl) id decided

/-! ### Serving many -/

/-- Requests that are served one after the other, with what they are told. -/
inductive Serial (settings : LedgerSettings) :
    Ledger → List (program settings).Call → Ledger → Prop where
  | nil {ledger : Ledger} : Serial settings ledger [] ledger
  | cons {ledger after last : Ledger} {share? : Option Share}
      {outcome : Except Error Rotation.Outcome} {calls : List (program settings).Call}
      (served : Served settings ledger share? after outcome) (rest : Serial settings after calls last) :
      Serial settings ledger (answeredCall settings share? outcome :: calls) last

/-- Requests that have been answered hold nothing. -/
theorem Serial.idle {calls : List (program settings).Call} (serial : Serial settings ledger calls after) :
    ∀ call ∈ calls, call.held = [] := by
  induction serial with
  | nil =>
      intro call member
      cases member
  | cons served rest ih =>
      intro call member
      rcases List.mem_cons.1 member with rfl | later
      · rfl
      · exact ih call later

/-- Requests that come one after the other are served so. -/
theorem Serial.reachableAfter {early : List (program settings).Event}
    {before calls : List (program settings).Call} (serial : Serial settings ledger calls after)
    (idle : ∀ call ∈ before, call.held = [])
    (reachable : Program.ReachableAfter early ⟨ledger, before, false⟩) :
    Program.ReachableAfter early ⟨after, before ++ calls, false⟩ := by
  induction serial generalizing before with
  | nil => rwa [List.append_nil]
  | @cons ledger after last share? outcome calls served rest ih =>
      rw [List.append_cons]
      refine ih ?_ (served.reachableAfter idle reachable)
      intro call member
      rcases List.mem_append.1 member with old | new
      · exact idle call old
      · rw [List.mem_singleton.1 new]
        rfl

/-! ### A busy ledger -/

/-- Two shares are enough for a claim, and the second share of the oldest claim is audited. -/
def busySettings : LedgerSettings :=
  { promptSettings with shareThreshold := 2, auditPolicy := .oldestUnverified, auditIndex := some 1 }

/-- A share with this nonce. -/
def numbered (nonce : UInt64) : Share := { plainShare with nonce := nonce }

/-- The claim of the shares with these nonces. -/
def claimOfNonces (nonces : List UInt64) : Claim := ⟨nonces.map numbered⟩

/-- The contract does not take a claim. -/
def refusal : Error := .reported .contract "refused"

/-- The ledger in which the claim with a number collects shares behind the slots of the earlier ones. -/
def openLedger (filed : Slots) (number : Nat) (nonces : List UInt64) : Ledger :=
  ⟨filed ++ [(number, ⟨claimOfNonces nonces, .collecting⟩)], number,
    (nonces.map UInt64.toNat).reverse⟩

/-- The slot of the first claim after its acceptance, and that of the second one. -/
def firstFiled : Nat × Slot := (0, ⟨claimOfNonces [3, 5, 7], .submitted (.replicate 32 1)⟩)

def secondFiled : Nat × Slot := (1, ⟨claimOfNonces [5, 9], .submitted (.replicate 32 2)⟩)

/-- The ledger after two claims have been submitted. -/
def busyLedger : Ledger := openLedger [firstFiled, secondFiled] 2 [5]

/-- A share that comes twice, a claim that is refused with its second share and accepted with its third
one, and another claim that is accepted at once; in both of them and in the open one is the same share. -/
def busyCalls (first second : ClaimSummary) : List (program busySettings).Call :=
  [answeredCall busySettings (some (numbered 5)) (.ok (.kept none)),
    answeredCall busySettings (some (numbered 5)) (.ok .duplicate),
    answeredCall busySettings (some (numbered 3)) (.error refusal),
    answeredCall busySettings (some (numbered 7)) (.ok (.kept (some ⟨0, .replicate 32 1, first⟩))),
    answeredCall busySettings (some (numbered 9)) (.ok (.kept none)),
    answeredCall busySettings none (.ok (.kept none)),
    answeredCall busySettings (some (numbered 5)) (.ok (.kept (some ⟨1, .replicate 32 2, second⟩))),
    answeredCall busySettings (some (numbered 5)) (.ok (.kept none))]

def busySystem (first second : ClaimSummary) : (program busySettings).System :=
  ⟨busyLedger, busyCalls first second, false⟩

theorem sorted_claimOfNonces {nonces ascending : List UInt64} (perm : nonces.Perm ascending)
    (ordered : ascending.Pairwise (· < ·)) :
    (claimOfNonces nonces).sorted = claimOfNonces ascending := by
  have counter (nonce : UInt64) : (numbered nonce).counter = nonce.toNat := by
    simp [numbered, Share.counter, plainShare]
  have counters : ((claimOfNonces ascending).shares.map Share.counter).Pairwise (· < ·) := by
    simp only [claimOfNonces, List.pairwise_map, counter]
    exact ordered.imp UInt64.lt_iff_toNat_lt.1
  have distinct : ((claimOfNonces ascending).shares.map Share.counter).Nodup :=
    counters.imp Nat.ne_of_lt
  calc (claimOfNonces nonces).sorted = (claimOfNonces ascending).sorted :=
        (Claim.sorted_eq_of_perm (perm.symm.map numbered) distinct).symm
    _ = claimOfNonces ascending :=
        Claim.sorted_eq_self ((List.pairwise_map.1 counters).imp Nat.le_of_lt)

theorem serial_busyCalls :
    ∃ first second, (claimOfNonces [3, 5, 7]).summary = .ok first ∧
      (claimOfNonces [5, 9]).summary = .ok second ∧
        Serial busySettings fresh (busyCalls first second) busyLedger := by
  have accepted : ∃ first, (claimOfNonces [5, 3, 7]).sorted.summary = .ok first ∧
      Served busySettings (openLedger [] 0 [5, 3]) (some (numbered 7))
        ((openLedger [] 0 [5, 3, 7]).accept ⟨0, (claimOfNonces [5, 3, 7]).sorted, first⟩
          (.replicate 32 1)) (.ok (.kept (some ⟨0, .replicate 32 1, first⟩))) :=
    Served.exists_accepted (by decide) rfl rfl (by decide) (by decide) (by decide) _
  have acceptedNext : ∃ second, (claimOfNonces [9, 5]).sorted.summary = .ok second ∧
      Served busySettings (openLedger [firstFiled] 1 [9]) (some (numbered 5))
        ((openLedger [firstFiled] 1 [9, 5]).accept ⟨1, (claimOfNonces [9, 5]).sorted, second⟩
          (.replicate 32 2)) (.ok (.kept (some ⟨1, .replicate 32 2, second⟩))) :=
    Served.exists_accepted (by decide) rfl rfl (by decide) (by decide) (by decide) _
  rw [sorted_claimOfNonces (.swap 3 5 [7]) (by decide)] at accepted
  rw [sorted_claimOfNonces (.swap 5 9 []) (by decide)] at acceptedNext
  obtain ⟨first, summarized, accepted⟩ := accepted
  obtain ⟨second, summarizedNext, acceptedNext⟩ := acceptedNext
  have accepted : Served busySettings (openLedger [] 0 [5, 3]) (some (numbered 7))
      (openLedger [firstFiled] 1 []) _ := accepted
  have acceptedNext : Served busySettings (openLedger [firstFiled] 1 [9]) (some (numbered 5))
      (openLedger [firstFiled, secondFiled] 2 []) _ := acceptedNext
  have refused : Served busySettings (openLedger [] 0 [5]) (some (numbered 3))
      (openLedger [] 0 [5, 3]) (.error refusal) :=
    .of_refused (by decide) rfl rfl (by decide) (by decide) (by decide) fun _ => rfl
  refine ⟨first, second, summarized, summarizedNext, ?_⟩
  refine .cons (.of_small (by decide) rfl rfl (by decide)) (.cons (.of_known (by decide))
    (.cons refused (.cons accepted ?_)))
  refine .cons (.of_small (by decide) rfl rfl (by decide)) (.cons (.of_unripe rfl (by decide))
    (.cons acceptedNext ?_))
  exact .cons (.of_small (by decide) rfl rfl (by decide)) .nil

theorem reachable_busySystem {first second : ClaimSummary}
    (serial : Serial busySettings fresh (busyCalls first second) busyLedger) :
    Program.Reachable (busySystem first second) := by
  have nobody : ∀ call ∈ ([] : List (program busySettings).Call), call.held = [] := by
    intro call member
    cases member
  rw [← Program.reachableAfter_nil]
  exact serial.reachableAfter nobody Program.Run.start.reachableAfter

end MiningPool.Ledger
