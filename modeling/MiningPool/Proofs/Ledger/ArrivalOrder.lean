/-
Module: MiningPool.Proofs.Ledger.ArrivalOrder
Purpose: the order in which shares arrive does not matter.
Main exports: Ledger.arrivals, Ledger.Delivers, Ledger.exists_delivery, Ledger.same_of_deliveries
-/
import MiningPool.Proofs.Claim.Order
import MiningPool.Proofs.Ledger.AuditedProof
import MiningPool.Proofs.Ledger.Completion

/-!
If the threshold is the number of the shares that are handed in, a claim is submitted only with all of
them, and a share that comes again before that is told to be known. What is submitted and kept is in the
order of the counters, so that no trace is left of the order in which the shares came.
-/

namespace MiningPool.Ledger

variable {settings : LedgerSettings} {ledger after : Ledger}
  {trace : List (program settings).Event} {system : (program settings).System}

/-! ### Arrivals -/

/-- What is requested with an event. -/
def requested? : (program settings).Event → Option Request
  | .arrived request => some request
  | _ => none

/-- The shares that have been handed in, in the order of their arrival. -/
def arrivals (trace : List (program settings).Event) : List Share :=
  (trace.filterMap requested?).filterMap Request.share?

@[simp] theorem arrivals_append (early late : List (program settings).Event) :
    arrivals (early ++ late) = arrivals early ++ arrivals late := by
  simp [arrivals]

theorem requests_of_run (run : Program.Run trace system) :
    system.calls.map (·.request) = trace.filterMap requested? := by
  induction run with
  | start => rfl
  | @step trace system next event run step ih =>
      rw [Program.filterMap_concat, ← ih]
      cases step with
      | arrive request now => simp [requested?]
      | stop => simp [requested?]
      | move move running data free told =>
          have listed : (system.calls.map (·.request))[move.caller]? = some move.next.request := by
            rw [List.getElem?_map, running]
            rfl
          obtain ⟨inside, same⟩ := List.getElem?_eq_some_iff.1 listed
          rw [List.map_set, ← same, List.set_getElem_self]
          simp [requested?]

theorem mem_arrivals_of_run (run : Program.Run trace system) {share : Share} :
    share ∈ arrivals trace ↔ ∃ call ∈ system.calls, call.request = .add share := by
  rw [arrivals, ← requests_of_run run, List.mem_filterMap]
  constructor
  · rintro ⟨request, member, carried⟩
    obtain ⟨call, called, rfl⟩ := List.mem_map.1 member
    refine ⟨call, called, ?_⟩
    generalize call.request = request at carried
    cases request <;> cases carried
    rfl
  · rintro ⟨call, called, adding⟩
    exact ⟨call.request, List.mem_map_of_mem called, by rw [adding]; rfl⟩

/-! ### Claims of all shares -/

variable {shares : List Share}

theorem mem_shares_of_run (arrived : ∀ share ∈ arrivals trace, share ∈ shares)
    (run : Program.Run trace system) (number : Nat) :
    ∀ share ∈ system.data.sharesOf number, share ∈ shares := by
  intro share member
  apply arrived
  rw [mem_arrivals_of_run run]
  apply exists_add_of_mem_shares run
  rw [sharesOf, claimOf] at member
  cases found : system.data.slots.get? number with
  | none =>
      rw [found] at member
      cases member
  | some slot =>
      rw [found] at member
      exact List.mem_flatMap.2 ⟨_, Slots.mem_of_get?_eq_some found, member⟩

theorem nodup_sharesOf (wellFormed : ledger.WellFormed settings.shareThreshold) (number : Nat) :
    ((ledger.sharesOf number).map Share.counter).Nodup := by
  cases found : ledger.slots.get? number with
  | none =>
      rw [sharesOf, claimOf, found]
      exact List.nodup_nil
  | some slot =>
      rw [sharesOf_eq found]
      exact wellFormed.distinct found

theorem size_claimOf_le (arrived : ∀ share ∈ arrivals trace, share ∈ shares)
    (run : Program.Run trace system) (number : Nat) :
    (system.data.claimOf number).size ≤ shares.length := by
  have distinct := nodup_sharesOf (sound_of_run run).1 number
  exact distinct.of_map.length_le_of_subset (mem_shares_of_run arrived run number)

/-- A filed claim has all the shares, if that is how many it takes. -/
theorem perm_sharesOf_of_run (arrived : ∀ share ∈ arrivals trace, share ∈ shares)
    (threshold : settings.shareThreshold = shares.length) (run : Program.Run trace system)
    {number : Nat} (filed : number < system.data.current) :
    (system.data.sharesOf number).Perm shares := by
  obtain ⟨wellFormed, _⟩ := sound_of_run run
  obtain ⟨slot, found, isFiled⟩ := wellFormed.exists_filed filed
  have size : shares.length ≤ (system.data.sharesOf number).length := by
    rw [sharesOf_eq found, ← threshold]
    exact isFiled.size
  have distinct := nodup_sharesOf wellFormed number
  apply List.Subperm.perm_of_length_le _ size
  exact List.subperm_of_subset distinct.of_map (mem_shares_of_run arrived run number)

/-- What is kept of a filed claim are the shares in the order of their counters. -/
theorem claimOf_eq_of_run (arrived : ∀ share ∈ arrivals trace, share ∈ shares)
    (threshold : settings.shareThreshold = shares.length) (run : Program.Run trace system)
    {number : Nat} (filed : number < system.data.current) :
    system.data.claimOf number = Claim.sorted ⟨shares⟩ := by
  obtain ⟨wellFormed, _⟩ := sound_of_run run
  have perm := perm_sharesOf_of_run arrived threshold run filed
  obtain ⟨slot, found, isFiled⟩ := wellFormed.exists_filed filed
  have ascending := isFiled.ascending
  rw [← sharesOf_eq found] at ascending
  have inOrder : Claim.InOrder (system.data.claimOf number).shares :=
    ascending.imp fun before => Nat.le_of_lt before
  calc system.data.claimOf number = (system.data.claimOf number).sorted :=
        (Claim.sorted_eq_self inOrder).symm
    _ = Claim.sorted ⟨shares⟩ := by
        apply Claim.sorted_eq_of_perm perm
        exact nodup_sharesOf wellFormed number

/-! ### Arrivals before the first submission -/

theorem Part.Change.counter_mem {part : Part} {exchange : Option (Exchange pool)}
    (wellFormed : ledger.WellFormed settings.shareThreshold) (sound : part.Sound settings ledger)
    (change : Part.Change settings ledger part exchange after) (same : after.current = ledger.current)
    {counter : Nat} (member : counter ∈ ledger.counters) : counter ∈ after.counters := by
  cases change with
  | keep known refused => exact member
  | add new =>
      rw [wellFormed.add_eq]
      exact List.mem_cons_of_mem _ member
  | @accept rotation retry tx =>
      have number := (wellFormed.of_due_eq sound).1
      have next : rotation.number + 1 = ledger.current := same
      omega
  | verify =>
      rw [counters_verify]
      exact member

/-- The call does not wait to add a share any more. -/
def Added (call : (program settings).Call) (share : Share) : Prop :=
  call.request = .add share ∧ call.stage ≠ .inl (.rotating (.entering (some share)))

/-- With the step of its request, the counter of a share is known. -/
theorem counter_mem_of_added {move : (program settings).Move}
    (wellFormed : move.data.WellFormed settings.shareThreshold)
    (sound : (partOf move.call).Sound settings move.data) {share : Share}
    (added : Added move.next share) (same : move.after.current = move.data.current)
    (before : Added move.call share → share.counter ∈ move.data.counters) :
    share.counter ∈ move.after.counters := by
  by_cases waiting : move.phase = .rotating (.entering (some share))
  · obtain ⟨outcome, step, next⟩ := rotating_step waiting
    generalize move.exchange? = exchange at step
    generalize move.after = after at step
    cases step with
    | duplicate known => exact known
    | add new looked =>
        rw [wellFormed.add_eq]
        exact List.mem_cons_self
    | lose new lost =>
        rw [wellFormed.add_eq]
        exact List.mem_cons_self
  · apply (move_step move).change.counter_mem wellFormed sound same
    apply before
    refine ⟨added.1, ?_⟩
    intro stage
    exact waiting (Sum.inl.inj stage)

/-- Before the first submission the counters of all shares that have been added are known. -/
theorem counter_mem_of_run (run : Program.Run trace system) (first : system.data.current = 0)
    {call : (program settings).Call} (called : call ∈ system.calls) {share : Share}
    (added : Added call share) : share.counter ∈ system.data.counters := by
  induction run generalizing call with
  | start => cases called
  | @step trace system next event run step ih =>
      cases step with
      | arrive request now =>
          rcases List.mem_append.1 called with old | new
          · exact ih first old added
          · rw [List.mem_singleton.1 new] at added
            obtain ⟨adding, ahead⟩ := added
            change request = _ at adding
            subst adding
            exact absurd rfl ahead
      | stop => exact ih first called added
      | move move running data free told =>
          obtain ⟨wellFormed, sound⟩ := sound_of_run run
          have member := List.mem_of_getElem? running
          rw [← data] at wellFormed sound ih
          have soundCall := sound _ member
          have change := (move_step move).change
          have still : move.data.current = 0 := by
            have advanced := (change.advances wellFormed soundCall).current
            exact Nat.le_zero.1 (Nat.le_trans advanced (Nat.le_of_eq first))
          have same : move.after.current = move.data.current := Eq.trans first still.symm
          rcases List.mem_or_eq_of_mem_set called with old | rfl
          · exact change.counter_mem wellFormed soundCall same (ih still old added)
          · exact counter_mem_of_added wellFormed soundCall added same (ih still member)

/-! ### Deliveries -/

/-- All the shares, and no others, have been handed in, in some order and any number of times each; all
requests to add one have been answered, and no submission has been given up. -/
structure Delivers (shares : List Share) (trace : List (program settings).Event)
    (system : (program settings).System) : Prop where
  run : Program.Run trace system
  arrived : ∀ share, share ∈ arrivals trace ↔ share ∈ shares
  answered : ∀ call ∈ system.calls, ∀ share, call.request = .add share →
    ∃ result, call.stage = .inr result
  accepting : Accepting trace

theorem Accepting.concat (accepting : Accepting trace) (event : (program settings).Event)
    (passes : ∀ move, event = .moved move → ∀ summary error,
      move.exchange? ≠ some ⟨PoolQuery.submitClaim summary, .error error⟩) :
    Accepting (trace ++ [event]) := by
  intro move member summary error refused
  rcases List.mem_append.1 member with old | new
  · exact accepting move old summary error refused
  · exact absurd refused (passes move (List.mem_singleton.1 new).symm summary error)

/-- The shares have arrived in this order, and all requests have been answered. -/
def Settled (trace : List (program settings).Event) (order : List Share) : Prop :=
  ∃ ledger calls, Program.Run trace ⟨ledger, calls, false⟩ ∧ arrivals trace = order ∧
    Accepting trace ∧ ∀ call ∈ calls, ∃ result, call.stage = .inr result

section

variable {calls : List (program settings).Call}
  (answered : ∀ call ∈ calls, ∃ result, call.stage = .inr result)

include answered

theorem idle_of_answered : ∀ call ∈ calls, call.held = [] := by
  intro call member
  obtain ⟨result, stage⟩ := answered call member
  rw [Program.Call.held, stage]

theorem answered_concat (request : Request) (result : Result) :
    ∀ call ∈ calls ++ [(⟨request, .inr result⟩ : (program settings).Call)],
      ∃ result, call.stage = .inr result := by
  intro call member
  rcases List.mem_append.1 member with old | new
  · exact answered call old
  · rw [List.mem_singleton.1 new]
    exact ⟨result, rfl⟩

end

/-- One more share can be added and its request answered. -/
theorem Settled.deliver {order : List Share} (settled : Settled trace order) (share : Share) :
    ∃ late : List (program settings).Event, Settled (trace ++ late) (order ++ [share]) := by
  obtain ⟨ledger, calls, run, arrived, accepting, answered⟩ := settled
  have idle := idle_of_answered answered
  have answeredNow := answered_concat answered (.add share)
  have came := run.step (.arrive ⟨ledger, calls, false⟩ (.add share) 0)
  have acceptingCame := accepting.concat (.arrived (.add share)) (by rintro move ⟨⟩)
  cases entered : Rotation.enter settings ledger (some share) with
  | mk after next =>
      have resumed : resume settings ledger 0 (.rotating (.entering (some share))) () =
          (after, next.map .rotating .rotated) := by
        simp only [resume, Rotation.resume, entered]
      have added := came.move_last idle 0 () (fun _ _ => List.not_mem_nil) id resumed
      have acceptingAdded := acceptingCame.concat
        (.moved ⟨calls.length, .add share, .rotating (.entering (some share)), ledger, 0, ()⟩)
        (by rintro move ⟨⟩ summary error ⟨⟩)
      cases next with
      | inr outcome =>
          rw [List.append_assoc] at added acceptingAdded
          refine ⟨_, after, _, added, ?_, acceptingAdded, answeredNow (.rotated outcome)⟩
          rw [arrivals_append, arrived]
          rfl
      | inl phase =>
          obtain ⟨rotation, rfl⟩ := Rotation.enter_eq_inl entered
          have accepted := added.move_last idle 0 (.ok (.zero 32)) (Await.free_of_lockless rfl) id rfl
          have acceptingAccepted := acceptingAdded.concat (.moved ⟨calls.length, .add share,
            .rotating (.submitting rotation (Retry.start settings.retry)), after, 0, .ok (.zero 32)⟩)
            (by rintro move ⟨⟩ summary error ⟨⟩)
          rw [List.append_assoc, List.append_assoc] at accepted acceptingAccepted
          refine ⟨_, _, _, accepted, ?_, acceptingAccepted, answeredNow _⟩
          rw [arrivals_append, arrived]
          rfl

/-- Shares can be delivered in every order, with every repetition. -/
theorem exists_delivery (order : List Share) (complete : ∀ share, share ∈ order ↔ share ∈ shares) :
    ∃ (trace : List (program settings).Event) (system : (program settings).System),
      Delivers shares trace system ∧ arrivals trace = order := by
  have settled : ∃ trace : List (program settings).Event, Settled trace order := by
    clear complete
    induction order using List.reverseRecOn with
    | nil =>
        refine ⟨[], fresh, [], .start, rfl, ?_, ?_⟩
        · intro move member
          cases member
        · intro call member
          cases member
    | append_singleton order share ih =>
        obtain ⟨trace, settled⟩ := ih
        obtain ⟨late, delivered⟩ := settled.deliver share
        exact ⟨_, delivered⟩
  obtain ⟨trace, ledger, calls, run, arrived, accepting, answered⟩ := settled
  refine ⟨trace, _, ⟨run, ?_, ?_, accepting⟩, arrived⟩
  · intro share
    rw [arrived, complete]
  · intro call member share _
    exact answered call member

/-- No claim becomes larger than all the shares. -/
theorem size_le_of_run (arrived : ∀ share ∈ arrivals trace, share ∈ shares)
    (run : Program.Run trace system) {move : (program settings).Move}
    (member : .moved move ∈ trace) (number : Nat) :
    (move.after.claimOf number).size ≤ shares.length := by
  obtain ⟨early, late, rfl⟩ := List.append_of_mem member
  obtain ⟨before, next, earlier, step⟩ := run.exists_step
  have soFar : ∀ share ∈ arrivals (early ++ [.moved move]), share ∈ shares := by
    intro share inEarly
    apply arrived
    rw [List.append_cons, arrivals_append]
    exact List.mem_append_left _ inEarly
  have size := size_claimOf_le soFar (earlier.step step) number
  cases step with
  | move move running data free told => exact size

/-- When everything has been answered, the claim of all shares has been submitted. -/
theorem Delivers.submitted (delivers : Delivers shares trace system) (nonempty : shares ≠ [])
    (distinct : (shares.map Share.counter).Nodup)
    (threshold : settings.shareThreshold = shares.length)
    (few : shares.length ≤ 2 ^ (32 : Nat)) : 0 < system.data.current := by
  by_contra still
  have first : system.data.current = 0 := Nat.eq_zero_of_not_pos still
  obtain ⟨wellFormed, _⟩ := sound_of_run delivers.run
  have arrived : ∀ share ∈ arrivals trace, share ∈ shares := by
    intro share member
    exact (delivers.arrived share).1 member
  have counted : shares.map Share.counter ⊆ system.data.openClaim.counters := by
    intro counter member
    obtain ⟨share, inShares, rfl⟩ := List.mem_map.1 member
    obtain ⟨call, called, adding⟩ :=
      (mem_arrivals_of_run delivers.run).1 ((delivers.arrived share).2 inShares)
    obtain ⟨result, stage⟩ := delivers.answered call called share adding
    rw [← wellFormed.counters]
    apply counter_mem_of_run delivers.run first called
    refine ⟨adding, ?_⟩
    rw [stage]
    simp
  have large : settings.shareThreshold ≤ system.data.openClaim.size := by
    have length := distinct.length_le_of_subset counted
    rw [Claim.counters, List.length_map, List.length_map] at length
    rw [threshold]
    exact length
  have positive : 1 ≤ settings.shareThreshold := by
    rw [threshold]
    exact List.length_pos_iff.2 nonempty
  obtain ⟨call, called, share, rotation, retry, rfl⟩ :=
    submitting_of_run positive delivers.run delivers.accepting
      (fun move member => (size_le_of_run arrived delivers.run member _).trans few) large
  obtain ⟨result, stage⟩ := delivers.answered _ called share rfl
  cases stage

/-- What is told to be known is what the open claim has. -/
theorem refused_iff_of_delivery (arrived : ∀ share ∈ arrivals trace, share ∈ shares)
    (distinct : (shares.map Share.counter).Nodup) (run : Program.Run trace system)
    {early late : List (program settings).Event} {move : (program settings).Move}
    (split : trace = early ++ .moved move :: late) {share : Share}
    (entering : move.phase = .rotating (.entering (some share))) :
    refused move.next.stage = true ↔ share ∈ early.filterMap (takenInto? move.data.current) := by
  subst split
  obtain ⟨before, next, earlier, step⟩ := run.exists_step
  have refusal := @refused_iff_of_run settings early before earlier move next step share
  cases step with
  | move move running data free told =>
      obtain ⟨wellFormed, _⟩ := sound_of_run earlier
      have member := List.mem_of_getElem? running
      have adding : move.request = .add share := by
        have part : partOf move.call = .rotation (.entering (some share)) := by
          rw [partOf, Program.Move.call, entering]
          rfl
        exact (fits_of_run earlier _ member).request_eq part
      have soFar : ∀ share ∈ arrivals early, share ∈ shares := by
        intro share inEarly
        apply arrived
        rw [arrivals_append]
        exact List.mem_append_left _ inEarly
      have known : share ∈ shares := by
        apply soFar
        rw [mem_arrivals_of_run earlier]
        exact ⟨_, member, adding⟩
      have inOpen : ∀ other ∈ before.data.openClaim.shares, other ∈ shares :=
        mem_shares_of_run soFar earlier before.data.current
      have taken := perm_takenInto_of_run earlier move.data.current
      rw [data] at taken ⊢
      rw [(refusal adding).1, ← taken.mem_iff]
      constructor
      · rintro ⟨_, counted⟩
        obtain ⟨other, otherIn, same⟩ := List.mem_map.1 counted
        rw [← Claim.eq_of_counter_eq distinct (inOpen other otherIn) known same]
        exact otherIn
      · intro inClaim
        exact ⟨entering, List.mem_map_of_mem inClaim⟩

/-! ### Two deliveries -/

/-- Both deliveries have filed the claim, with the same shares in the same order; its summary is that of the
shares in whatever order, and so is the proof for each position, whatever is answered while it is
gathered. -/
structure FiledAlike (shares : List Share) (number : Nat)
    (trace trace' : List (program settings).Event) (system system' : (program settings).System) :
    Prop where
  kept : system.data.claimOf number = system'.data.claimOf number
  entries : ∃ entry entry', (trace.filterMap acceptance?)[number]? = some entry ∧
    (trace'.filterMap acceptance?)[number]? = some entry' ∧ entry.summary = entry'.summary ∧
    ∀ order : List Share, order.Perm shares → Claim.summary ⟨order⟩ = .ok entry.summary
  proofs : ∀ order : List Share, order.Perm shares → ∀ (ω : Type) (datasets : DatasetLocator)
    (environment : Environment pool ω) (memory : ω) (index : Nat), ∃ outcome,
      Proving.gather datasets environment memory ⟨order⟩ index = some outcome ∧
      Proving.gather datasets environment memory (system.data.claimOf number) index = some outcome

/-- The log has an entry with the summary of the claim. -/
theorem exists_entry_of_run (run : Program.Run trace system) {number : Nat}
    (filed : number < system.data.current) :
    ∃ entry, (trace.filterMap acceptance?)[number]? = some entry ∧
      (system.data.claimOf number).summary = .ok entry.summary := by
  have logged := logged_of_run run
  obtain ⟨entry, found⟩ := logged.exists_entry filed
  obtain ⟨slot, inLedger, summarized, _⟩ := logged.entries entry (List.mem_of_getElem? found)
  rw [logged.claimNumber_eq found] at inLedger
  exact ⟨entry, found, by rw [claimOf_eq inLedger, summarized]⟩

theorem Delivers.filedAlike {trace' : List (program settings).Event}
    {system' : (program settings).System} (first : Delivers shares trace system)
    (second : Delivers shares trace' system') (distinct : (shares.map Share.counter).Nodup)
    (threshold : settings.shareThreshold = shares.length) {number : Nat}
    (filed : number < system.data.current) (filed' : number < system'.data.current) :
    FiledAlike shares number trace trace' system system' := by
  have kept := claimOf_eq_of_run (fun share => (first.arrived share).1) threshold first.run filed
  have kept' := claimOf_eq_of_run (fun share => (second.arrived share).1) threshold second.run filed'
  have distinctIn {order : List Share} (perm : order.Perm shares) :
      (order.map Share.counter).Nodup := (perm.map Share.counter).nodup_iff.2 distinct
  have permSorted {order : List Share} (perm : order.Perm shares) :
      order.Perm (Claim.sorted ⟨shares⟩).shares := perm.trans (Claim.perm_sorted ⟨shares⟩).symm
  refine ⟨kept.trans kept'.symm, ?_, ?_⟩
  · obtain ⟨entry, found, summarized⟩ := exists_entry_of_run first.run filed
    obtain ⟨entry', found', summarized'⟩ := exists_entry_of_run second.run filed'
    rw [kept] at summarized
    rw [kept', summarized] at summarized'
    refine ⟨entry, entry', found, found', Except.ok.inj summarized', ?_⟩
    intro order perm
    calc Claim.summary ⟨order⟩ = (Claim.sorted ⟨shares⟩).summary :=
          Claim.summary_eq_of_perm (permSorted perm) (distinctIn perm)
      _ = .ok entry.summary := summarized
  · intro order perm ω datasets environment memory index
    have gathers : (Proving.gather datasets environment memory ⟨order⟩ index).isSome :=
      Proving.gather_isSome _ _
    obtain ⟨outcome, gathered⟩ := Option.isSome_iff_exists.1 gathers
    refine ⟨outcome, gathered, ?_⟩
    rw [kept, ← gathered]
    exact (Proving.gather_eq_of_perm (permSorted perm) (distinctIn perm) index).symm

/-- Shares with different counters can be delivered in every order, with every repetition. However they
are delivered, all of them are submitted together and filed alike, and a share is told to be known just
when the open claim has taken it in before. -/
theorem same_of_deliveries (nonempty : shares ≠ []) (distinct : (shares.map Share.counter).Nodup)
    (threshold : settings.shareThreshold = shares.length) :
    (∀ order : List Share, (∀ share, share ∈ order ↔ share ∈ shares) →
      ∃ (trace : List (program settings).Event) (system : (program settings).System),
        Delivers shares trace system ∧ arrivals trace = order) ∧
    ∀ (trace trace' : List (program settings).Event) (system system' : (program settings).System),
      Delivers shares trace system → Delivers shares trace' system' →
        (shares.length ≤ 2 ^ (32 : Nat) → 0 < system.data.current ∧ 0 < system'.data.current) ∧
        (∀ number, number < system.data.current → number < system'.data.current →
          FiledAlike shares number trace trace' system system') ∧
        ∀ early move late, trace = early ++ .moved move :: late →
          ∀ share, move.phase = .rotating (.entering (some share)) →
            (refused move.next.stage = true ↔
              share ∈ early.filterMap (takenInto? move.data.current)) := by
  constructor
  · intro order complete
    exact exists_delivery order complete
  · intro trace trace' system system' first second
    refine ⟨?_, ?_, ?_⟩
    · intro few
      constructor
      · exact first.submitted nonempty distinct threshold few
      · exact second.submitted nonempty distinct threshold few
    · intro number filed filed'
      exact first.filedAlike second distinct threshold filed filed'
    · intro early move late split share entering
      apply refused_iff_of_delivery _ distinct first.run split entering
      exact fun other => (first.arrived other).1

/-- A claim takes two shares. -/
def pairSettings : LedgerSettings := { promptSettings with shareThreshold := 2 }

/-- Two shares that come in the order of their counters, or the other way round and one of them twice. -/
theorem same_of_pair_deliveries :
    ∃ (one other : Share) (trace trace' : List (program pairSettings).Event)
      (system system' : (program pairSettings).System),
      one.counter < other.counter ∧ arrivals trace = [one, other] ∧
        arrivals trace' = [other, other, one] ∧ 0 < system.data.current ∧ 0 < system'.data.current ∧
        FiledAlike [one, other] 0 trace trace' system system' := by
  let one : Share := numbered 3
  let other : Share := numbered 5
  have ascending : one.counter < other.counter := by decide
  have distinct : ([one, other].map Share.counter).Nodup := by decide
  have threshold : pairSettings.shareThreshold = [one, other].length := rfl
  obtain ⟨delivered, same⟩ :=
    same_of_deliveries (List.cons_ne_nil one [other]) distinct threshold
  obtain ⟨trace, system, first, order⟩ := delivered [one, other] fun share => Iff.rfl
  have repeated : ∀ share, share ∈ [other, other, one] ↔ share ∈ [one, other] := by
    intro share
    simp only [List.mem_cons, List.not_mem_nil, or_false]
    grind
  obtain ⟨trace', system', second, order'⟩ := delivered [other, other, one] repeated
  obtain ⟨submitted, alike, _⟩ := same trace trace' system system' first second
  obtain ⟨filed, filed'⟩ := submitted (by decide)
  exact ⟨one, other, trace, trace', system, system', ascending, order, order', filed, filed',
    alike 0 filed filed'⟩

end MiningPool.Ledger
