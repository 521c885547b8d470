/-
Module: MiningPool.Proofs.Ledger.Arrivals
Purpose: no share that has been taken in is lost or counted twice.
Main exports: Ledger.kept?, Ledger.taken?, Ledger.perm_taken_of_run, Ledger.shares_of_run
-/
import Mathlib.Data.List.Perm.Basic
import MiningPool.Proofs.Ledger.Shares

/-!
The shares in the ledger are those of the requests to add one that have not been told that the share is
known. A request may still be submitting the claim when its share is in already, so calls and shares are
compared with that included; when nobody holds the ledger, there is no such request.
-/

namespace MiningPool.Ledger

variable {settings : LedgerSettings} {ledger after : Ledger}

/-! ### Requests to add a share -/

/-- The answer that the share is known. -/
def refused : Phase ⊕ Result → Bool
  | .inr (.rotated (.ok .duplicate)) => true
  | _ => false

/-- The share of a request to add it that has been answered, but not that the share is known. -/
def kept? (request : Request) : Phase ⊕ Result → Option Share
  | .inl _ => none
  | .inr result => if refused (.inr result) then none else request.share?

/-- The same with the requests whose claim is being submitted. -/
def taken? (request : Request) : Phase ⊕ Result → Option Share
  | .inl (.rotating (.submitting _ _)) => request.share?
  | .inl _ => none
  | .inr result => if refused (.inr result) then none else request.share?

/-- The share that is taken in with a step. -/
def takenWith? (move : (program settings).Move) : Option Share :=
  match move.phase with
  | .rotating (.entering (some share)) => if refused move.next.stage then none else some share
  | _ => none

/-- The share that is taken in with an event if the claim with the number is open then. -/
def takenInto? (number : Nat) : (program settings).Event → Option Share
  | .moved move => if number = move.data.current then takenWith? move else none
  | _ => none

/-- Only requests to add a share carry one, and they do nothing but taking it in. -/
structure Fits (call : (program settings).Call) : Prop where
  entering : ∀ share?, partOf call = .rotation (.entering share?) →
    share? = Request.share? call.request
  adding : ∀ share, Request.share? call.request = some share →
    (∃ phase, call.stage = .inl (.rotating phase)) ∨ ∃ outcome, call.stage = .inr (.rotated outcome)

/-- The step of a call that takes in a share or submits a claim on its own. -/
theorem rotating_step {move : (program settings).Move} {phase : Rotation.Phase}
    (rotating : move.phase = .rotating phase) :
    ∃ outcome, Rotation.Step settings move.data phase move.exchange? move.after outcome ∧
      move.next = ⟨move.request, outcome.map .rotating .rotated⟩ := by
  obtain ⟨caller, request, _, data, now, reply⟩ := move
  cases rotating
  exact ⟨_, Rotation.resume_step phase reply, rfl⟩

theorem refused_look : refused ((Rotation.look settings ledger).map .rotating .rotated) = false := by
  cases looked : Rotation.look settings ledger with
  | inl phase => rfl
  | inr outcome =>
      cases outcome with
      | error error => rfl
      | ok outcome =>
          cases outcome with
          | duplicate => exact absurd looked Rotation.look_ne_duplicate
          | kept submission => rfl

theorem taken?_look (request : Request) :
    taken? request ((Rotation.look settings ledger).map .rotating .rotated) = request.share? := by
  have answered : refused ((Rotation.look settings ledger).map .rotating .rotated) = false :=
    refused_look
  cases looked : Rotation.look settings ledger with
  | inl phase =>
      obtain ⟨rotation, _, rfl⟩ := Rotation.look_eq_inl looked
      rfl
  | inr outcome =>
      rw [looked] at answered
      exact if_neg (Bool.eq_false_iff.1 answered)

/-- A share is taken in with the step in which it comes into the ledger. -/
theorem taken?_of_step {request : Request} {share : Share} {phase : Rotation.Phase}
    {exchange : Option (Exchange pool)} {outcome : Rotation.Phase ⊕ Except Error Rotation.Outcome}
    (adding : request.share? = some share)
    (entering : ∀ share?, phase = .entering share? → share? = some share)
    (step : Rotation.Step settings ledger phase exchange after outcome) :
    (taken? request (outcome.map .rotating .rotated)).toList =
      ((Part.rotation phase).arrival? ledger).toList ++
        (taken? request (.inl (.rotating phase))).toList := by
  cases step with
  | look looked => cases entering none rfl
  | duplicate known =>
      rw [Part.Change.arrival?_eq_none_of_keep]
      · rfl
      · rintro share ⟨⟩
        exact known
  | add new added looked =>
      cases entering _ rfl
      rw [← looked, taken?_look, adding, Part.arrival?_eq_some.2 ⟨rfl, new⟩]
      rfl
  | lose new lost =>
      cases entering _ rfl
      rw [Part.arrival?_eq_some.2 ⟨rfl, new⟩]
      show request.share?.toList = _
      rw [adding]
      rfl
  | wait failed => rfl
  | refuse error => rfl
  | accept tx => rfl

/-- A share is refused if its counter is in the open claim. -/
theorem refused_of_step {phase : Rotation.Phase} {exchange : Option (Exchange pool)}
    {outcome : Rotation.Phase ⊕ Except Error Rotation.Outcome}
    (step : Rotation.Step settings ledger phase exchange after outcome) :
    (refused (outcome.map .rotating .rotated) = true ↔
      ∃ share, phase = .entering (some share) ∧ share.counter ∈ ledger.counters) ∧
      (refused (outcome.map .rotating .rotated) = true → after = ledger) := by
  cases step with
  | look looked =>
      rw [← looked, refused_look]
      simp
  | duplicate known => exact ⟨⟨fun _ => ⟨_, rfl, known⟩, fun _ => rfl⟩, fun _ => rfl⟩
  | add new added looked =>
      rw [← looked, refused_look]
      simpa using new
  | lose new lost => simpa [refused] using new
  | wait failed => simp [refused]
  | refuse error => simp [refused]
  | accept tx => simp [refused]

/-- A wait for the ledger begins without a share, unless a request to add one arrives. -/
theorem Part.Step.of_entering {part : Part} {exchange : Option (Exchange pool)}
    {share? : Option Share}
    (step : Part.Step settings ledger part exchange after (.rotation (.entering share?))) :
    part = .idle ∧ share? = none := by
  cases step with
  | begin => exact ⟨rfl, rfl⟩
  | rotation step =>
      cases step with
      | look looked =>
          obtain ⟨_, _, same⟩ := Rotation.look_eq_inl looked
          cases same
      | add new added looked =>
          obtain ⟨_, _, same⟩ := Rotation.look_eq_inl looked
          cases same
  | rotated step goesOn => rcases goesOn with same | same <;> cases same

namespace Fits

theorem rotating {move : (program settings).Move} (fits : Fits move.call) {share : Share}
    (adding : Request.share? move.request = some share) :
    ∃ phase, move.phase = .rotating phase := by
  rcases fits.adding share adding with ⟨phase, stage⟩ | ⟨outcome, stage⟩
  · exact ⟨phase, Sum.inl.inj stage⟩
  · cases stage

theorem phase_eq {move : (program settings).Move} (fits : Fits move.call) {share : Share}
    (entering : partOf move.call = .rotation (.entering (some share))) :
    move.phase = .rotating (.entering (some share)) := by
  obtain ⟨phase, rotating⟩ := fits.rotating (fits.entering _ entering).symm
  have part : partOf move.call = .rotation phase := by
    rw [partOf, Program.Move.call, rotating]
    rfl
  rw [rotating, Part.rotation.inj (part.symm.trans entering)]

theorem taken?_next {move : (program settings).Move} (fits : Fits move.call) :
    (taken? move.request move.next.stage).toList =
      (Part.arrival? move.data (partOf move.call)).toList ++
        (taken? move.request (.inl move.phase)).toList := by
  cases adding : Request.share? move.request with
  | none =>
      have nothing : ∀ stage, taken? move.request stage = none := by
        intro stage
        unfold taken?
        split
        · exact adding
        · rfl
        · rw [adding]
          exact ite_self none
      have noArrival : Part.arrival? move.data (partOf move.call) = none := by
        cases arrives : Part.arrival? move.data (partOf move.call) with
        | none => rfl
        | some share =>
            obtain ⟨entering, _⟩ := Part.arrival?_eq_some.1 arrives
            cases (fits.entering _ entering).trans adding
      rw [nothing, nothing, noArrival]
      rfl
  | some share =>
      obtain ⟨phase, rotating⟩ := fits.rotating adding
      obtain ⟨outcome, step, next⟩ := rotating_step rotating
      have part : partOf move.call = .rotation phase := by
        rw [partOf, Program.Move.call, rotating]
        rfl
      have entering : ∀ share?, phase = .entering share? → share? = some share := by
        rintro share? rfl
        exact (fits.entering share? part).trans adding
      rw [part, next, rotating]
      exact taken?_of_step adding entering step

theorem takenWith?_eq {move : (program settings).Move} (fits : Fits move.call) :
    takenWith? move = Part.arrival? move.data (partOf move.call) := by
  by_cases entering : ∃ share, move.phase = .rotating (.entering (some share))
  · obtain ⟨share, phase⟩ := entering
    obtain ⟨outcome, step, next⟩ := rotating_step phase
    have part : partOf move.call = .rotation (.entering (some share)) := by
      rw [partOf, Program.Move.call, phase]
      rfl
    have taking : takenWith? move =
        if refused move.next.stage then none else some share := by
      simp only [takenWith?, phase]
    have known : refused move.next.stage = true ↔ share.counter ∈ move.data.counters := by
      rw [next, (refused_of_step step).1]
      simp
    rw [taking, part, Part.arrival?]
    by_cases isKnown : share.counter ∈ move.data.counters
    · rw [if_pos (known.2 isKnown), if_pos isKnown]
    · rw [if_neg (fun isRefused => isKnown (known.1 isRefused)), if_neg isKnown]
  · have taking : takenWith? move = none := by
      unfold takenWith?
      split
      · rename_i share phase
        exact absurd ⟨share, phase⟩ entering
      · rfl
    cases arrives : Part.arrival? move.data (partOf move.call) with
    | none => exact taking
    | some share =>
        obtain ⟨isEntering, _⟩ := Part.arrival?_eq_some.1 arrives
        exact absurd ⟨share, fits.phase_eq isEntering⟩ entering

end Fits

/-! ### Runs -/

theorem fits_invariant (settings : LedgerSettings) :
    Program.Invariant (program settings) (fun _ => True) fun _ call => Fits call where
  initial := trivial
  arrive := by
    intro ledger request now _
    cases request with
    | add share =>
        refine ⟨?_, fun _ _ => .inl ⟨_, rfl⟩⟩
        rintro share? ⟨⟩
        rfl
    | rotate =>
        refine ⟨?_, fun _ adding => nomatch adding⟩
        rintro share? ⟨⟩
        rfl
    | verify => exact ⟨fun _ part => (nomatch part), fun _ adding => nomatch adding⟩
    | cycle => exact ⟨fun _ part => (nomatch part), fun _ adding => nomatch adding⟩
  own := by
    intro move _ fits
    refine ⟨trivial, ?_, ?_⟩
    · intro share? entering
      have step := move_step move
      rw [entering] at step
      obtain ⟨idle, rfl⟩ := step.of_entering
      cases adding : Request.share? move.request with
      | none => exact adding.symm
      | some share =>
          obtain ⟨phase, rotating⟩ := fits.rotating adding
          rw [partOf, Program.Move.call, rotating] at idle
          cases idle
    · intro share adding
      obtain ⟨phase, rotating⟩ := fits.rotating adding
      obtain ⟨outcome, _, next⟩ := rotating_step rotating
      rw [next]
      cases outcome with
      | inl phase => exact .inl ⟨phase, rfl⟩
      | inr outcome => exact .inr ⟨outcome, rfl⟩
  others := by
    intro move call _ _ fits _
    exact fits

variable {trace : List (program settings).Event} {system : (program settings).System}

theorem fits_of_run (run : Program.Run trace system) : ∀ call ∈ system.calls, Fits call :=
  (run.invariant (fits_invariant settings)).2

/-- Changing one item exchanges what is collected from it. -/
theorem perm_filterMap_set {α β : Type} {items : List α} {index : Nat} {old : α}
    (found : items[index]? = some old) (new : α) (collect : α → Option β) :
    ((collect old).toList ++ (items.set index new).filterMap collect).Perm
      ((collect new).toList ++ items.filterMap collect) := by
  obtain ⟨inside, rfl⟩ := List.getElem?_eq_some_iff.1 found
  have cons : ∀ (item : α) (rest : List α), (item :: rest).filterMap collect =
      (collect item).toList ++ rest.filterMap collect := by
    intro item rest
    cases collected : collect item <;> simp [collected]
  have before := (List.getElem_cons_eraseIdx_perm inside).symm.filterMap collect
  have after := (List.set_perm_cons_eraseIdx inside new).filterMap collect
  rw [cons] at before after
  exact (after.append_left _).trans
    ((List.perm_append_comm_assoc _ _ _).trans (before.symm.append_left _))

theorem perm_taken_of_run (run : Program.Run trace system) :
    system.data.shares.Perm
      (system.calls.filterMap fun call => taken? call.request call.stage) := by
  induction run with
  | start => rfl
  | @step trace system next event run step ih =>
      cases step with
      | arrive request now =>
          have nothing :
              [(⟨request, .inl (begin settings request now)⟩ : (program settings).Call)].filterMap
                (fun call => taken? call.request call.stage) = [] := by
            cases request <;> rfl
          rw [List.filterMap_append, nothing, List.append_nil]
          exact ih
      | stop => exact ih
      | move move running data free told =>
          obtain ⟨wellFormed, sound⟩ := sound_of_run run
          have member := List.mem_of_getElem? running
          rw [← data] at ih wellFormed sound
          have changed := (move_step move).change.perm_shares wellFormed (sound _ member)
          have exchanged := perm_filterMap_set running move.next
            fun call => taken? call.request call.stage
          have taken : (taken? move.next.request move.next.stage).toList = _ :=
            (fits_of_run run _ member).taken?_next
          -- What the call has taken in before stands on both sides and is taken away at the end.
          rw [taken, List.append_assoc] at exchanged
          have arrived := (List.perm_append_left_iff _).1
            (exchanged.trans (List.perm_append_comm_assoc _ _ _))
          exact changed.trans ((ih.append_left _).trans arrived.symm)

/-- In a claim are the shares that were taken in while it was open. -/
theorem perm_takenInto_of_run (run : Program.Run trace system) (number : Nat) :
    (system.data.sharesOf number).Perm (trace.filterMap (takenInto? number)) := by
  induction run with
  | start => cases number <;> rfl
  | @step trace system next event run step ih =>
      rw [Program.filterMap_concat]
      cases step with
      | arrive request now => simpa [takenInto?] using ih
      | stop => simpa [takenInto?] using ih
      | move move running data free told =>
          obtain ⟨wellFormed, sound⟩ := sound_of_run run
          have member := List.mem_of_getElem? running
          rw [← data] at ih wellFormed sound
          have changed :=
            (move_step move).change.perm_sharesOf wellFormed (sound _ member) number
          rw [← (fits_of_run run _ member).takenWith?_eq] at changed
          have taken : (takenInto? number (.moved move)).toList =
              if number = move.data.current then (takenWith? move).toList else [] := by
            rw [takenInto?]
            split <;> rfl
          rw [taken]
          exact changed.trans (ih.append_right _)

/-- Requests that have come to an end have taken in what they have kept. -/
theorem taken?_eq_kept? {call : (program settings).Call} (free : .ledger ∉ call.held) :
    taken? call.request call.stage = kept? call.request call.stage := by
  obtain ⟨request, phase | result⟩ := call
  · rcases phase with phase | phase | phase
    · cases phase with
      | entering share => rfl
      | submitting rotation retry => exact absurd (List.mem_singleton.2 rfl) free
    · rfl
    · rfl
  · rfl

/-- What a request to add a share is told, and when. -/
theorem refused_iff_of_run (run : Program.Run trace system) {move : (program settings).Move}
    {next : (program settings).System} (step : Program.Step system (.moved move) next) {share : Share}
    (adding : move.request = .add share) :
    (refused move.next.stage = true ↔ move.phase = .rotating (.entering (some share)) ∧
      share.counter ∈ system.data.openClaim.counters) ∧
      (refused move.next.stage = true → next.data = system.data) := by
  cases step with
  | move move running data free told =>
      obtain ⟨wellFormed, _⟩ := sound_of_run run
      have fits := fits_of_run run _ (List.mem_of_getElem? running)
      have carried : Request.share? move.request = some share := by
        rw [adding]
        rfl
      obtain ⟨phase, rotating⟩ := fits.rotating carried
      obtain ⟨outcome, rotation, next⟩ := rotating_step rotating
      obtain ⟨known, unchanged⟩ := refused_of_step rotation
      rw [next, rotating, ← wellFormed.counters, ← data, known]
      refine ⟨⟨?_, ?_⟩, fun isRefused => unchanged (known.2 isRefused)⟩
      · rintro ⟨other, rfl, isKnown⟩
        have same : some other = some share := by
          rw [← carried]
          refine fits.entering _ ?_
          rw [partOf, Program.Move.call, rotating]
          rfl
        cases same
        exact ⟨rfl, isKnown⟩
      · rintro ⟨entering, isKnown⟩
        cases entering
        exact ⟨share, rfl, isKnown⟩

/-- When nobody holds the ledger, the shares in it are those of the requests to add one that have not
been told that the share is known; every share is in the claim that was open when it was taken in; and a
request is told so just when the open claim has a share with this counter, which changes nothing. -/
theorem shares_of_run (run : Program.Run trace system) (free : system.Free .ledger) :
    system.data.shares.Perm (system.calls.filterMap fun call => kept? call.request call.stage) ∧
      (∀ number, (system.data.sharesOf number).Perm (trace.filterMap (takenInto? number))) ∧
      ∀ move next, Program.Step system (.moved move) next → ∀ share, move.request = .add share →
        (refused move.next.stage = true ↔ move.phase = .rotating (.entering (some share)) ∧
          share.counter ∈ system.data.openClaim.counters) ∧
        (refused move.next.stage = true → next.data = system.data) := by
  refine ⟨?_, perm_takenInto_of_run run, fun _ _ step _ adding => refused_iff_of_run run step adding⟩
  have same := List.filterMap_congr fun call member => taken?_eq_kept? (free call member)
  rw [← same]
  exact perm_taken_of_run run

/-- A share that has come twice is once in each claim that has taken it in, and a share whose submission
was refused is kept. -/
theorem shares_of_busy_run :
    ∃ (trace : List (program busySettings).Event) (first second : ClaimSummary),
      Program.Run trace (busySystem first second) ∧ (busySystem first second).Free .ledger ∧
        (busySystem first second).data.shares =
          [numbered 3, numbered 5, numbered 7, numbered 5, numbered 9, numbered 5] ∧
        (busySystem first second).data.shares.Perm
          ((busySystem first second).calls.filterMap fun call => kept? call.request call.stage) ∧
        ∀ number, ((busySystem first second).data.sharesOf number).Perm
          (trace.filterMap (takenInto? number)) := by
  obtain ⟨first, second, _, _, serial⟩ := serial_busyCalls
  obtain ⟨trace, run⟩ := reachable_busySystem serial
  have free : (busySystem first second).Free .ledger := by
    intro call member
    rw [serial.idle call member]
    exact List.not_mem_nil
  obtain ⟨kept, taken, _⟩ := shares_of_run run free
  exact ⟨trace, first, second, run, free, rfl, kept, taken⟩

end MiningPool.Ledger
