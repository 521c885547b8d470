/-
Module: MiningPool.Proofs.Ledger.Operation
Purpose: what an operation has done to the ledger up to a point of a run.
Main exports: Ledger.endedBy?, Ledger.operation, Ledger.OnlyTakes, Ledger.does_of_run
-/
import MiningPool.Proofs.Ledger.Arrivals

/-!
An operation is what a call does from its first step on until a submission or an audit comes to its end; in
a cycle one operation follows the other. For every step of the operation that a call is busy with, the
ledger before the step and the ledger after it are looked at. In between, others may change the ledger,
but not while the operation holds it.
-/

namespace MiningPool.Ledger

variable {settings : LedgerSettings} {ledger after : Ledger} {share? : Option Share}
  {steps : List (Ledger × Ledger)}

/-! ### The steps of an operation -/

/-- What comes to its end with a step of a call. -/
def endedBy? (move : (program settings).Move) : Option Ended :=
  ended? settings move.data move.now move.phase move.reply

theorem move_course (move : (program settings).Move) :
    Part.Course settings move.data (partOf move.call) move.exchange? move.after (partOf move.next)
      (endedBy? move) :=
  resume_course move.phase move.reply

/-- The operation that an answer is about; a cycle has many, and its end is not the end of any. -/
def Result.ended? : Result → Option Ended
  | rotated outcome => some (.rotated outcome)
  | audited outcome => some (.audited outcome)
  | ended _ => none

/-- Where a mapped sum ends, the sum itself has ended. -/
theorem exists_of_map_eq_inr {α β γ δ : Type} {first : α → β} {second : γ → δ} {sum : α ⊕ γ} {result : δ}
    (mapped : sum.map first second = .inr result) : ∃ outcome, sum = .inr outcome ∧ second outcome = result := by
  cases sum with
  | inl next => cases mapped
  | inr outcome => exact ⟨outcome, rfl, Sum.inr.inj mapped⟩

/-- What a request is told has come to its end with the step. -/
theorem endedBy?_of_told {move : (program settings).Move} {result : Result}
    (told : move.next.stage = .inr result) : ∀ ended ∈ result.ended?, endedBy? move = some ended := by
  obtain ⟨caller, request, phase, data, now, reply⟩ := move
  intro ended about
  cases phase with
  | rotating phase =>
      change Sum.map Phase.rotating Result.rotated (Rotation.resume settings data phase reply).2 =
        .inr result at told
      obtain ⟨outcome, found, rfl⟩ := exists_of_map_eq_inr told
      cases about
      simp only [endedBy?, Ledger.ended?, found]
      rfl
  | auditing phase =>
      change Sum.map Phase.auditing Result.audited (Audit.resume settings data now phase reply).2 =
        .inr result at told
      obtain ⟨outcome, found, rfl⟩ := exists_of_map_eq_inr told
      cases about
      simp only [endedBy?, Ledger.ended?, found]
      rfl
  | cycling phase =>
      change Sum.map Phase.cycling Result.ended (Cycle.resume settings data now phase reply).2 =
        .inr result at told
      obtain ⟨outcome, found, rfl⟩ := exists_of_map_eq_inr told
      cases about

/-- Whether an operation that is busy with the part goes on after a step. -/
def Part.goesOn : Part → Option Ended → Bool
  | idle, _ => false
  | _, some _ => false
  | _, none => true

theorem Part.goesOn_of_ne {part : Part} (busy : part ≠ .idle) : part.goesOn none = true := by
  cases part with
  | idle => exact absurd rfl busy
  | rotation phase => rfl
  | audit phase => rfl

/-- The steps of the operation of a call after one more step of it. -/
def followed (steps : List (Ledger × Ledger)) (move : (program settings).Move) :
    List (Ledger × Ledger) :=
  if (partOf move.call).goesOn (endedBy? move) then steps ++ [(move.data, move.after)] else []

/-- The steps of the operation that a call is busy with after the events. -/
def operation (caller : Nat) (trace : List (program settings).Event) : List (Ledger × Ledger) :=
  trace.foldl (fun steps event =>
    match event with
    | .moved move => if move.caller = caller then followed steps move else steps
    | _ => steps) []

@[simp] theorem operation_concat_arrived (caller : Nat) (trace : List (program settings).Event)
    (request : Request) : operation caller (trace ++ [.arrived request]) = operation caller trace := by
  rw [operation, List.foldl_append]
  rfl

@[simp] theorem operation_concat_stopped (caller : Nat) (trace : List (program settings).Event) :
    operation caller (trace ++ [.stopped]) = operation caller trace := by
  rw [operation, List.foldl_append]
  rfl

theorem operation_concat_of_ne {caller : Nat} {trace : List (program settings).Event}
    {move : (program settings).Move} (other : move.caller ≠ caller) :
    operation caller (trace ++ [.moved move]) = operation caller trace := by
  rw [operation, List.foldl_append]
  exact if_neg other

theorem operation_concat_self {trace : List (program settings).Event}
    (move : (program settings).Move) :
    operation move.caller (trace ++ [.moved move]) = followed (operation move.caller trace) move := by
  rw [operation, List.foldl_append]
  exact if_pos rfl

/-! ### What the steps do -/

/-- The share has come into the open claim and its counter to the others; all else is as before. -/
structure Extends (share : Share) (before after : Ledger) : Prop where
  new : share.counter ∉ before.counters
  current : after.current = before.current
  counters : after.counters = share.counter :: before.counters
  openClaim : after.slots.get? before.current = some ⟨before.openClaim.push share, .collecting⟩
  others : ∀ number, number ≠ before.current → after.slots.get? number = before.slots.get? number

theorem WellFormed.extends_add {threshold : Nat} (wellFormed : ledger.WellFormed threshold)
    {share : Share} (new : share.counter ∉ ledger.counters) :
    Extends share ledger (ledger.add share).1 := by
  rw [wellFormed.add_eq]
  constructor
  · exact new
  · rfl
  · rfl
  · exact Slots.get?_insert_self _ _ _
  · intro number different
    exact Slots.get?_insert_of_ne different _ _

/-- The steps have left the ledger as it is now, except that the first of them has taken in the share, if
there is one. -/
def OnlyTakes (share? : Option Share) (ledger : Ledger) (steps : List (Ledger × Ledger)) : Prop :=
  match share? with
  | none => ∀ step ∈ steps, step = (ledger, ledger)
  | some share => ∃ before rest, steps = (before, ledger) :: rest ∧ Extends share before ledger ∧
      ∀ step ∈ rest, step = (ledger, ledger)

theorem OnlyTakes.concat (only : OnlyTakes share? ledger steps) :
    OnlyTakes share? ledger (steps ++ [(ledger, ledger)]) := by
  have kept : ∀ rest : List (Ledger × Ledger), (∀ step ∈ rest, step = (ledger, ledger)) →
      ∀ step ∈ rest ++ [(ledger, ledger)], step = (ledger, ledger) := by
    intro rest before step member
    rcases List.mem_append.1 member with old | new
    · exact before step old
    · exact List.mem_singleton.1 new
  cases share? with
  | none => exact kept steps only
  | some share =>
      obtain ⟨before, rest, rfl, extended, unchanged⟩ := only
      exact ⟨before, _, rfl, extended, kept rest unchanged⟩

/-- What an operation has done so far. -/
def Part.Does (share? : Option Share) (ledger : Ledger) (steps : List (Ledger × Ledger)) :
    Part → Prop
  | idle => steps = []
  | rotation (.entering entering) => entering = share? ∧ steps = []
  | rotation (.submitting _ _) => OnlyTakes share? ledger steps
  | audit _ => ∀ step ∈ steps, step.1 = step.2

/-! ### One step -/

variable {exchange : Option (Exchange pool)}

/-- A step after which the claim is being submitted, or which fails, does nothing but taking in the
share. -/
theorem onlyTakes_of_step {threshold : Nat} (wellFormed : ledger.WellFormed threshold)
    {phase : Rotation.Phase} {outcome : Rotation.Phase ⊕ Except Error Rotation.Outcome}
    (does : (Part.rotation phase).Does share? ledger steps)
    (step : Rotation.Step settings ledger phase exchange after outcome)
    (notDone : ∀ kept, outcome ≠ .inr (.ok kept)) :
    OnlyTakes share? after (steps ++ [(ledger, after)]) := by
  cases step with
  | look looked =>
      obtain ⟨rfl, rfl⟩ := does
      intro step member
      exact List.mem_singleton.1 member
  | duplicate known => exact absurd rfl (notDone _)
  | add new added looked =>
      obtain ⟨rfl, rfl⟩ := does
      exact ⟨ledger, [], rfl, wellFormed.extends_add new, fun _ member => nomatch member⟩
  | lose new lost =>
      rw [wellFormed.add_eq] at lost
      cases lost
  | wait failed => exact OnlyTakes.concat does
  | refuse error => exact OnlyTakes.concat does
  | accept tx => exact absurd rfl (notDone _)

/-- Only the record of a verification changes the ledger. -/
theorem ledger_eq_of_audit {phase : Audit.Phase} {outcome : Audit.Next}
    (step : Audit.Step settings ledger phase exchange after outcome)
    (notDone : ∀ verification, outcome ≠ .inr (.ok (some verification))) : after = ledger := by
  cases step with
  | record => exact absurd rfl (notDone _)
  | _ => rfl

theorem unchanged_of_audit {phase : Audit.Phase} {outcome : Audit.Next}
    (does : ∀ step ∈ steps, step.1 = step.2)
    (step : Audit.Step settings ledger phase exchange after outcome)
    (notDone : ∀ verification, outcome ≠ .inr (.ok (some verification))) :
    ∀ step ∈ steps ++ [(ledger, after)], step.1 = step.2 := by
  intro both member
  rcases List.mem_append.1 member with old | new
  · exact does both old
  · rw [List.mem_singleton.1 new, ledger_eq_of_audit step notDone]

/-- A step that goes on adds to what the operation has done, and one that does not begins anew. -/
theorem Part.Does.course {threshold : Nat} (wellFormed : ledger.WellFormed threshold)
    {part next : Part} {ended : Option Ended} (does : part.Does share? ledger steps)
    (fits : next = .rotation (.entering none) → share? = none)
    (course : Part.Course settings ledger part exchange after next ended) :
    next.Does share? after (if part.goesOn ended then steps ++ [(ledger, after)] else []) := by
  cases course with
  | idle round =>
      rcases round with rfl | rfl
      · rfl
      · exact ⟨(fits rfl).symm, rfl⟩
  | @rotation phase next _ _ step =>
      have only := onlyTakes_of_step wellFormed does step (fun _ same => nomatch same)
      cases next with
      | entering entering =>
          obtain ⟨same, _⟩ := (Part.Step.rotation step).of_entering
          cases same
      | submitting rotation retry => exact only
  | rotated step goesOn =>
      rcases goesOn with rfl | rfl
      · rfl
      · exact fun _ member => nomatch member
  | audit step => exact unchanged_of_audit does step (fun _ same => nomatch same)
  | audited step => rfl

/-- Steps of others do not touch what the operation relies on. -/
theorem Part.Does.of_apart {part other : Part} (does : other.Does share? ledger steps)
    (change : Part.Change settings ledger part exchange after) (apart : part.Apart other) :
    other.Does share? after steps := by
  cases other with
  | idle => exact does
  | rotation phase =>
      cases phase with
      | entering entering => exact does
      | submitting rotation retry =>
          obtain ⟨notHeld, notTaken⟩ := apart .ledger (List.mem_singleton.2 rfl)
          rw [change.ledger_eq notHeld notTaken]
          exact does
  | audit phase => exact does

/-! ### Runs -/

variable {trace : List (program settings).Event} {system : (program settings).System}

theorem does_begin (request : Request) (ledger : Ledger) (now : Instant) :
    (partOf (⟨request, .inl (begin settings request now)⟩ : (program settings).Call)).Does
      request.share? ledger [] := by
  cases request with
  | add share => exact ⟨rfl, rfl⟩
  | rotate => exact ⟨rfl, rfl⟩
  | verify => exact fun _ member => nomatch member
  | cycle => rfl

/-- What the operations of all calls have done, with nothing for calls that are still to come. -/
theorem does_of_run (run : Program.Run trace system) :
    (∀ caller, system.calls.length ≤ caller → operation caller trace = []) ∧
      ∀ caller call, system.calls[caller]? = some call →
        (partOf call).Does (Request.share? call.request) system.data (operation caller trace) := by
  induction run with
  | start => exact ⟨fun _ _ => rfl, fun _ _ found => nomatch found⟩
  | @step trace system next event run step ih =>
      obtain ⟨later, does⟩ := ih
      cases step with
      | arrive request now =>
          constructor
          · intro caller beyond
            rw [List.length_append] at beyond
            rw [operation_concat_arrived]
            exact later caller (Nat.le_of_succ_le beyond)
          · intro caller call found
            rw [operation_concat_arrived]
            rcases Program.getElem?_calls_arrive found with ⟨rfl, rfl⟩ | before
            · rw [later _ (Nat.le_refl _)]
              exact does_begin request system.data now
            · exact does caller call before
      | stop =>
          simp only [operation_concat_stopped]
          exact ⟨later, does⟩
      | move move running data free told =>
          have inside : move.caller < system.calls.length := (List.getElem?_eq_some_iff.1 running).1
          constructor
          · intro caller beyond
            rw [List.length_set] at beyond
            rw [operation_concat_of_ne (by omega)]
            exact later caller beyond
          · intro caller call found
            obtain ⟨wellFormed, _⟩ := sound_of_run run
            rw [← data] at wellFormed does
            rcases Program.getElem?_calls_move found with ⟨rfl, rfl⟩ | ⟨elsewhere, before⟩
            · have fits := fits_of_run (run.step (.move _ move running data free told)) _
                (List.mem_of_getElem? found)
              rw [operation_concat_self]
              apply (does _ _ running).course wellFormed _ (move_course move)
              intro entering
              exact (fits.entering none entering).symm
            · rw [operation_concat_of_ne elsewhere.symm]
              have apart := run.exclusive.apart running free elsewhere before
              exact (does caller call before).of_apart (move_step move).change (apart_of_move apart)

/-! ### Operations that nobody interrupts -/

/-- The ledger after the events. -/
def ledgerAfter (trace : List (program settings).Event) : Ledger :=
  trace.foldl (fun ledger event =>
    match event with
    | .moved move => move.after
    | _ => ledger) fresh

theorem data_eq_of_run (run : Program.Run trace system) : system.data = ledgerAfter trace := by
  induction run with
  | start => rfl
  | step run step ih =>
      rw [ledgerAfter, List.foldl_append, ← ledgerAfter, ← ih]
      cases step with
      | arrive request now => rfl
      | stop => rfl
      | move move running data free told => rfl

/-- Since then, nobody but the caller has moved, and no operation has come to its end. -/
def Alone (caller : Nat) (since : List (program settings).Event) : Prop :=
  ∀ move : (program settings).Move, .moved move ∈ since →
    move.caller = caller ∧ endedBy? move = none

/-- One more step of an operation that has begun with a ledger. -/
theorem started_concat {start : Ledger} (after : Ledger)
    (first : ∀ step ∈ steps.head?, step.1 = start)
    (unchanged : (∀ step ∈ steps, step.1 = step.2) → ledger = start) :
    (∀ step ∈ (steps ++ [(ledger, after)]).head?, step.1 = start) ∧
      ((∀ step ∈ steps ++ [(ledger, after)], step.1 = step.2) → after = start) := by
  constructor
  · intro step member
    cases steps with
    | nil =>
        cases member
        exact unchanged fun _ none => nomatch none
    | cons before steps => exact first step member
  · intro same
    have last := same (ledger, after) (List.mem_append_right _ (List.mem_singleton.2 rfl))
    exact last.symm.trans (unchanged fun step member => same step (List.mem_append_left _ member))

/-- An operation that has begun since then, and that nobody has interrupted, has begun with the ledger as it
was then; and if none of its steps has changed the ledger, the ledger is as it was then. -/
theorem operation_of_alone (run : Program.Run trace system) {caller : Nat}
    {early since : List (program settings).Event} (split : trace = early ++ since)
    (idle : operation caller early = []) (alone : Alone caller since) :
    (∀ step ∈ (operation caller trace).head?, step.1 = ledgerAfter early) ∧
      ((∀ step ∈ operation caller trace, step.1 = step.2) → system.data = ledgerAfter early) := by
  subst split
  induction since using List.reverseRecOn generalizing system with
  | nil =>
      rw [List.append_nil] at run ⊢
      rw [idle]
      exact ⟨fun _ member => (nomatch member), fun _ => data_eq_of_run run⟩
  | append_singleton since event ih =>
      rw [← List.append_assoc] at run ⊢
      obtain ⟨before, earlier, step⟩ := run.of_concat
      obtain ⟨first, unchanged⟩ :=
        ih (fun move member => alone move (List.mem_append_left _ member)) earlier
      cases step with
      | arrive request now =>
          rw [operation_concat_arrived]
          exact ⟨first, unchanged⟩
      | stop =>
          rw [operation_concat_stopped]
          exact ⟨first, unchanged⟩
      | move move running data free told =>
          obtain ⟨rfl, goesOn⟩ := alone move (List.mem_append_right _ (List.mem_singleton.2 rfl))
          have does := (does_of_run earlier).2 _ _ running
          have course := move_course move
          rw [operation_concat_self, followed]
          rw [goesOn] at course ⊢
          rw [← data] at unchanged
          by_cases atRest : partOf move.call = .idle
          · rw [atRest] at does course ⊢
            refine ⟨fun _ member => (nomatch member), fun _ => ?_⟩
            rw [course.step.change.ledger_eq List.not_mem_nil List.not_mem_nil]
            apply unchanged
            have nothing : operation move.caller (early ++ since) = [] := does
            rw [nothing]
            exact fun _ member => nomatch member
          · rw [if_pos (Part.goesOn_of_ne atRest)]
            exact started_concat _ first unchanged

end MiningPool.Ledger
