/-
Module: MiningPool.Proofs.Ledger.AuditedProof
Purpose: every proof that is shown to the contract opens the summary that it has accepted.
Main exports: Ledger.audited?, Ledger.opens_of_run
-/
import MiningPool.Proofs.Claim.Gathering
import MiningPool.Proofs.Ledger.Arrivals
import MiningPool.Proofs.Ledger.ContractLog

/-!
Between the submission of a claim and its audit there may be any number of steps of others. The claim that
is audited is still the one that was submitted: its summary is the entry of the log under its number, and
the proof is put together from the same shares in the same order.
-/

namespace MiningPool.Ledger

variable {settings : LedgerSettings}

/-- The number of the claim that a call audits. -/
def audited? (call : (program settings).Call) : Option Nat :=
  match partOf call with
  | .audit phase => phase.target?.map (·.number)
  | _ => none

theorem request_of_taken? {request : Request} {stage : Phase ⊕ Result} {share : Share}
    (taken : taken? request stage = some share) : request = .add share := by
  apply Request.eq_add_of_share?_eq
  unfold taken? at taken
  split at taken
  · exact taken
  · cases taken
  · split at taken
    · cases taken
    · exact taken

variable {trace : List (program settings).Event} {system : (program settings).System}

/-- All shares in the ledger have been handed in. -/
theorem exists_add_of_mem_shares (run : Program.Run trace system) {share : Share}
    (member : share ∈ system.data.shares) : ∃ call ∈ system.calls, call.request = .add share := by
  obtain ⟨call, called, taken⟩ :=
    List.mem_filterMap.1 ((perm_taken_of_run run).mem_iff.1 member)
  exact ⟨call, called, request_of_taken? taken⟩

/-! ### The course of an audit -/

/-- An audit does not hold the ledger, so that it can wait for it. -/
theorem free_of_audit (phase : Audit.Phase) (asks : Audit.await phase = .lock .ledger) :
    ∀ lock ∈ (await (.auditing phase)).locks, lock ∉ (Part.audit phase).held := by
  intro lock taken held
  have wanted : lock ∈ (Audit.await phase).locks := taken
  rw [asks] at wanted
  rw [List.mem_singleton.1 wanted] at held
  cases (Part.held_audit phase).1 _ held

/-- An audit while the dataset is read, in which words at these positions are looked up. -/
def readingCall (settings : LedgerSettings) (target : AuditTarget) (index : Nat)
    (audited : AuditedShare) (indices : List Nat) : (program settings).Call :=
  ⟨.verify, .inl (.auditing (.proving target index
    (.dataset audited indices (settings.datasets.pathFor (.zero 32)))))⟩

/-- An audit while it shows its proof to the contract. -/
def showingCall (settings : LedgerSettings) (target : AuditTarget) (index : Nat)
    (proof : VerificationProof) : (program settings).Call :=
  ⟨.verify, .inl (.auditing (.submitting target index proof (Retry.start settings.retry)))⟩

section

variable {early : List (program settings).Event} {calls : List (program settings).Call}
  {ledger : Ledger} {target : AuditTarget} {index : Nat} {audited : AuditedShare}
  (idle : ∀ call ∈ calls, call.held = [])
  (reachable : Program.ReachableAfter early ⟨ledger, calls, false⟩)
  (targeted : ledger.auditTarget? settings.auditPolicy = some target)
  (position : settings.auditIndex = some index) (inside : index < target.claim.size)
  (selected : AuditedShare.select target.claim index = .ok audited)

include idle reachable targeted position inside selected

/-- While nobody holds a lock, a new request has the claim audited that is next, up to the dataset. -/
theorem reachableAfter_reading (indices : List Nat) :
    Program.ReachableAfter early
      ⟨ledger, calls ++ [readingCall settings target index audited indices], false⟩ := by
  let watch := Confirmation.start settings.confirmation 0
  have picked : resume settings ledger 0 (.auditing .picking) () =
      (ledger, .inl (.auditing (.confirmingClaim target watch))) := by
    simp only [resume, Audit.resume, targeted, Sum.map_inl, watch]
  have arrived := reachable.arrive .verify 0
  have entering := arrived.move_last idle 0 () (fun _ _ => List.not_mem_nil) id rfl
  have picking := entering.move_last idle 0 () (free_of_audit .picking rfl) id picked
  have ticked := picking.move_last idle 0 .due (Await.free_of_lockless rfl) TickOutcome.noConfusion rfl
  have polled := ticked.move_last idle 0 (.ok true) (Await.free_of_lockless rfl) id rfl
  rw [Audit.choose_of_select position inside selected] at polled
  have located := polled.move_last idle 0 (.ok indices) (Await.free_of_lockless rfl) id rfl
  exact located.move_last idle 0 (.ok (.zero 32)) (Await.free_of_lockless rfl) id rfl

/-- If the proof can be made, it is shown to the contract. -/
theorem reachableAfter_showing {indices : List Nat} {content : List UInt8}
    {proof : VerificationProof}
    (finished : Proving.finish audited indices (.ok content) = .ok proof) :
    Program.ReachableAfter early
      ⟨ledger, calls ++ [showingCall settings target index proof], false⟩ := by
  have reading :=
    reachableAfter_reading idle reachable targeted position inside selected indices
  have made (path : String) : Proving.resume settings.datasets (.dataset audited indices path)
      (.ok content) = .inr (.ok proof) := congrArg Sum.inr finished
  have shows (path : String) : resume settings ledger 0
      (.auditing (.proving target index (.dataset audited indices path))) (.ok content) =
        (ledger, .inl (.auditing (.submitting target index proof (Retry.start settings.retry)))) := by
    simp only [resume, Audit.resume, made]
    rfl
  exact reading.move_last idle 0 (.ok content) (Await.free_of_lockless rfl) id (shows _)

end

/-! ### The audit of a claim of one share -/

/-- The tree over the share. -/
def onlyTree (share : Share) : ShareTree :=
  ⟨RangeNode.ofShare share, 1, 1, [(0, Branch.start share (RangeNode.ofShare share))], [0]⟩

/-- The proof for the share, if no dataset words are asked for. -/
def onlyProof (share : Share) : VerificationProof :=
  ⟨share.header.encode, share.nonce.toNat, 0, [], [], [], []⟩

theorem select_onlyTree (share : Share) :
    AuditedShare.select ⟨[share]⟩ 0 = .ok ⟨share, 0, onlyTree share⟩ := by
  have sorted : Claim.sorted ⟨[share]⟩ = ⟨[share]⟩ :=
    Claim.sorted_eq_self (List.pairwise_singleton _ _)
  have tree : Claim.tree ⟨[share]⟩ (some 0) = .ok (onlyTree share) := rfl
  have branch : (onlyTree share).branch 0 =
      .ok (Branch.start share (RangeNode.ofShare share)) := rfl
  refine AuditedShare.select_eq_ok ?_ (by decide) ?_ branch rfl
  · rw [sorted]
    rfl
  · rw [sorted, tree]

theorem assemble_onlyTree (share : Share) {dataset : DatasetTree}
    (unregistered : dataset.registered = []) :
    VerificationProof.assemble ⟨share, 0, onlyTree share⟩ dataset = .ok (onlyProof share) := by
  have branches : dataset.registeredBranches = .ok [] := by
    rw [Tree.registeredBranches, unregistered]
    rfl
  have checked : VerificationProof.checkBranches dataset = .ok () := by
    rw [VerificationProof.checkBranches, branches, unregistered]
    rfl
  simp only [VerificationProof.assemble, checked, DatasetTree.words, DatasetTree.branchElements,
    branches, bind, Except.bind]
  rfl

/-- With a readable dataset the proof is made. The bytes of the dataset do not matter. -/
theorem exists_finish_onlyTree (share : Share) :
    ∃ content, Proving.finish ⟨share, 0, onlyTree share⟩ [] (.ok content) = .ok (onlyProof share) := by
  obtain ⟨content, dataset, read, unregistered⟩ :
      ∃ content dataset, DatasetTree.ofContent [] content = .ok dataset ∧ dataset.registered = [] :=
    DatasetTree.exists_ofContent_eq []
  refine ⟨content, ?_⟩
  rw [Proving.finish, read]
  exact assemble_onlyTree share unregistered

/-- The claim of the share as it is audited. -/
def onlyTarget (share : Share) (tx : Hash256) : AuditTarget := ⟨0, ⟨[share]⟩, tx⟩

/-- The audit of the share while it shows its proof to the contract. -/
def onlyAudit (settings : LedgerSettings) (share : Share) (tx : Hash256) :
    (program settings).Call :=
  showingCall settings (onlyTarget share tx) 0 (onlyProof share)

/-- The audit of the share while the dataset is read. -/
def onlyReading (settings : LedgerSettings) (share : Share) (tx : Hash256) (indices : List Nat) :
    (program settings).Call :=
  readingCall settings (onlyTarget share tx) 0 ⟨share, 0, onlyTree share⟩ indices

theorem auditTarget?_onlySubmitted (share : Share) (tx : Hash256) (policy : AuditPolicy) :
    (onlySubmitted share tx).auditTarget? policy = some (onlyTarget share tx) := by
  cases policy <;> rfl

/-- While nobody holds a lock, a new request has the submitted claim audited up to its proof. -/
theorem reachableAfter_onlyAudit {early : List (program settings).Event}
    {calls : List (program settings).Call} (first : settings.auditIndex = some 0) (share : Share)
    (tx : Hash256) (idle : ∀ call ∈ calls, call.held = [])
    (reachable : Program.ReachableAfter early ⟨onlySubmitted share tx, calls, false⟩) :
    Program.ReachableAfter early
      ⟨onlySubmitted share tx, calls ++ [onlyAudit settings share tx], false⟩ := by
  obtain ⟨content, finished⟩ := exists_finish_onlyTree share
  exact reachableAfter_showing idle reachable (auditTarget?_onlySubmitted share tx _) first Nat.one_pos
    (select_onlyTree share) finished

/-- The dataset for the share can be read right after the submission of its claim. -/
theorem reachable_onlyReading (settings : LedgerSettings) (small : settings.shareThreshold ≤ 1)
    (first : settings.auditIndex = some 0) (share : Share) (tx : Hash256) (indices : List Nat) :
    Program.Reachable
      ⟨onlySubmitted share tx, [onlyCall settings share tx, onlyReading settings share tx indices],
        false⟩ := by
  have submitted := Program.reachableAfter_nil.2 (reachable_onlySubmitted settings small share tx)
  rw [← Program.reachableAfter_nil]
  exact reachableAfter_reading (idle_onlyCall settings share tx) submitted
    (auditTarget?_onlySubmitted share tx _) first Nat.one_pos (select_onlyTree share) indices

/-- The claim of the share can be audited right after its submission. -/
theorem reachable_onlyAudit (settings : LedgerSettings) (small : settings.shareThreshold ≤ 1)
    (first : settings.auditIndex = some 0) (share : Share) (tx : Hash256) :
    Program.Reachable
      ⟨onlySubmitted share tx, [onlyCall settings share tx, onlyAudit settings share tx], false⟩ := by
  have submitted := Program.reachableAfter_nil.2 (reachable_onlySubmitted settings small share tx)
  rw [← Program.reachableAfter_nil]
  exact reachableAfter_onlyAudit first share tx (idle_onlyCall settings share tx) submitted

/-! ### The audit of a claim of three shares -/

/-- The oldest claim of the busy ledger as it is audited. -/
def busyTarget : AuditTarget := ⟨0, claimOfNonces [3, 5, 7], .replicate 32 1⟩

theorem exists_select_busyTarget :
    ∃ audited, AuditedShare.select busyTarget.claim 1 = .ok audited ∧
      audited.share = numbered 5 := by
  have found : busyTarget.claim.sorted.shares[1]? = some (numbered 5) := by
    rw [busyTarget, sorted_claimOfNonces (.refl _) (by decide)]
    rfl
  obtain ⟨audited, selected, share, _⟩ :=
    AuditedShare.exists_select_of_getElem? (by decide) found
  exact ⟨audited, selected, share⟩

/-- The dataset has five words, three of which are looked up. -/
theorem exists_finish_busyTarget {audited : AuditedShare}
    (selected : AuditedShare.select busyTarget.claim 1 = .ok audited) :
    ∃ content proof, Proving.finish audited [3, 0, 4] (.ok content) = .ok proof ∧
      proof.nonce = audited.share.nonce.toNat ∧ proof.shareIndex = 1 ∧
        proof.datasetElements.length = 12 := by
  let content : List UInt8 := (List.range 648).map UInt8.ofNat
  have counted : DatasetReader.WordCount content.length 5 := by
    rw [List.length_map, List.length_range]
    exact ⟨rfl, by decide⟩
  obtain ⟨proof, finished, _, nonce, shareIndex, looked, found, elements⟩ :=
    Proving.exists_finish_eq_ok selected counted (by decide)
      (show ∀ position ∈ [3, 0, 4], position < 5 by decide)
  refine ⟨content, proof, finished, nonce, shareIndex, ?_⟩
  rw [elements, length_flatMap_of_forall fun word _ => word.length_integers, ← found.length_eq]
  rfl

/-- The busy ledger while the proof is shown to the contract. -/
theorem reachable_busyAudit {first second : ClaimSummary}
    (serial : Serial busySettings fresh (busyCalls first second) busyLedger)
    {audited : AuditedShare} (selected : AuditedShare.select busyTarget.claim 1 = .ok audited) {indices : List Nat}
    {content : List UInt8} {proof : VerificationProof}
    (finished : Proving.finish audited indices (.ok content) = .ok proof) :
    Program.Reachable ⟨busyLedger,
      busyCalls first second ++ [showingCall busySettings busyTarget 1 proof], false⟩ := by
  have served := Program.reachableAfter_nil.2 (reachable_busySystem serial)
  have targeted : busyLedger.auditTarget? busySettings.auditPolicy = some busyTarget := rfl
  rw [← Program.reachableAfter_nil]
  exact reachableAfter_showing serial.idle served targeted rfl (by decide) selected finished

theorem encodable_busyAudit (first second : ClaimSummary) (proof : VerificationProof) :
    ∀ call ∈ busyCalls first second ++ [showingCall busySettings busyTarget 1 proof], ∀ share,
      call.request = .add share → share.header.Encodable := by
  have short : plainShare.header.Encodable := by
    unfold BlockHeader.Encodable
    decide +kernel
  intro call member share adding
  have carried : Request.share? call.request = some share := by
    rw [adding]
    rfl
  have shares : (busyCalls first second ++ [showingCall busySettings busyTarget 1 proof]).filterMap
      (fun call => Request.share? call.request) = [5, 5, 3, 7, 9, 5, 5].map numbered := rfl
  have listed : share ∈ [5, 5, 3, 7, 9, 5, 5].map numbered := by
    rw [← shares]
    exact List.mem_filterMap.2 ⟨call, member, carried⟩
  obtain ⟨nonce, _, rfl⟩ := List.mem_map.1 listed
  exact short

/-! ### Proofs in runs -/

/-- In every state of every run, a proof that an audit shows to the contract opens the summary that the
contract has accepted for the audited claim, if all headers that have been handed in can be encoded. -/
theorem opens_of_run (run : Program.Run trace system)
    (encodable : ∀ call ∈ system.calls, ∀ share, call.request = .add share →
      share.header.Encodable) :
    ∀ call ∈ system.calls, ∀ proof, call.query? = some (.verifyClaim proof) →
      ∃ number submission, audited? call = some number ∧
        (trace.filterMap acceptance?)[number]? = some submission ∧
        submission.claimNumber = number ∧ proof.Opens submission.summary := by
  intro call member proof asks
  obtain ⟨wellFormed, sound⟩ := sound_of_run run
  have logged := logged_of_run run
  rw [query?_eq] at asks
  obtain ⟨target, index, retry, part⟩ := Part.of_query?_eq_verifyClaim asks
  have auditSound := sound call member
  rw [part] at auditSound
  have submitted := auditSound.target target rfl
  obtain ⟨audited, dataset, selected, assembled⟩ := auditSound.proven
  have below := wellFormed.lt_current submitted ClaimStatus.noConfusion
  obtain ⟨submission, entry⟩ := logged.exists_entry below
  have number := logged.claimNumber_eq entry
  obtain ⟨slot, found, summarized, _⟩ := logged.entries submission (List.mem_of_getElem? entry)
  rw [number, submitted] at found
  cases found
  have headers : ∀ share ∈ target.claim.shares, share.header.Encodable := by
    intro share inClaim
    have inLedger : share ∈ system.data.shares :=
      List.mem_flatMap.2 ⟨_, Slots.mem_of_get?_eq_some submitted, inClaim⟩
    obtain ⟨adder, called, request⟩ := exists_add_of_mem_shares run inLedger
    exact encodable adder called share request
  refine ⟨target.number, submission, ?_, entry, number, ?_⟩
  · rw [audited?, part]
    rfl
  · exact VerificationProof.opens_of_assemble headers summarized selected assembled

/-- The second one of three shares is proven, and three of five words are looked up. -/
theorem opens_of_busy_run :
    ∃ (trace : List (program busySettings).Event) (system : (program busySettings).System)
      (proof : VerificationProof), Program.Run trace system ∧ proof.nonce = 5 ∧
        proof.shareIndex = 1 ∧ proof.datasetElements.length = 12 ∧
        ∃ call ∈ system.calls, call.query? = some (.verifyClaim proof) ∧
          ∃ number submission, audited? call = some number ∧
            (trace.filterMap acceptance?)[number]? = some submission ∧
            submission.claimNumber = number ∧ submission.summary.numShares = 3 ∧
            proof.Opens submission.summary := by
  obtain ⟨first, second, _, _, serial⟩ := serial_busyCalls
  obtain ⟨audited, selected, share⟩ := exists_select_busyTarget
  obtain ⟨content, proof, finished, nonce, shareIndex, elements⟩ := exists_finish_busyTarget selected
  obtain ⟨trace, run⟩ := reachable_busyAudit serial selected finished
  have shown : showingCall busySettings busyTarget 1 proof ∈
      busyCalls first second ++ [showingCall busySettings busyTarget 1 proof] :=
    List.mem_append_right _ (List.mem_singleton.2 rfl)
  obtain ⟨number, submission, audits, entry, sameNumber, opens⟩ :=
    opens_of_run run (encodable_busyAudit first second proof) _ shown proof rfl
  obtain ⟨slot, found, summarized, _⟩ :=
    (logged_of_run run).entries submission (List.mem_of_getElem? entry)
  have isFirst : number = 0 := (Option.some.inj audits).symm
  rw [sameNumber, isFirst] at found
  cases found
  have size : submission.summary.numShares = 3 := (Claim.of_summary_eq_ok summarized).2.2.1
  rw [share] at nonce
  exact ⟨trace, _, proof, run, nonce, shareIndex, elements, _, shown, rfl, number, submission, audits,
    entry, sameNumber, size, opens⟩

end MiningPool.Ledger
