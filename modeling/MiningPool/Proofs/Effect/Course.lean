/-
Module: MiningPool.Proofs.Effect.Course
Purpose: the part of one call in a run.
Main exports: Program.movesOf, Program.Course, Program.Run.exists_course
-/
import MiningPool.Proofs.Effect.Interleaving

/-!
A call is known by its place in the order of arrival. From its arrival on it makes its own steps, one after
the other, each from the stage in which the one before has left it; what others do in between only shows in
the data that a step begins with.
-/

namespace MiningPool.Program

variable {I : Interface} {ρ : Type} {program : Program I ρ}

/-- The step of a call that is made with an event. -/
def Event.moveOf? (caller : Nat) : program.Event → Option program.Move
  | moved move => if move.caller = caller then some move else none
  | _ => none

/-- The steps of a call, in their order. -/
def movesOf (caller : Nat) (trace : List program.Event) : List program.Move :=
  trace.filterMap (Event.moveOf? caller)

theorem mem_movesOf {caller : Nat} {trace : List program.Event} {move : program.Move} :
    move ∈ movesOf caller trace ↔ .moved move ∈ trace ∧ move.caller = caller := by
  rw [movesOf, List.mem_filterMap]
  constructor
  · rintro ⟨event, member, collected⟩
    cases event with
    | arrived request => cases collected
    | stopped => cases collected
    | moved other =>
        obtain ⟨own, same⟩ := Option.ite_none_right_eq_some.1 collected
        cases same
        exact ⟨member, own⟩
  · rintro ⟨member, own⟩
    exact ⟨_, member, if_pos own⟩

@[simp] theorem movesOf_concat_arrived (caller : Nat) (trace : List program.Event)
    (request : program.Request) :
    movesOf caller (trace ++ [.arrived request]) = movesOf caller trace := by
  rw [movesOf, filterMap_concat]
  exact List.append_nil _

@[simp] theorem movesOf_concat_stopped (caller : Nat) (trace : List program.Event) :
    movesOf caller (trace ++ [.stopped]) = movesOf caller trace := by
  rw [movesOf, filterMap_concat]
  exact List.append_nil _

theorem movesOf_concat_self (trace : List program.Event) (move : program.Move) :
    movesOf move.caller (trace ++ [.moved move]) = movesOf move.caller trace ++ [move] := by
  rw [movesOf, filterMap_concat, Event.moveOf?, if_pos rfl]
  rfl

theorem movesOf_concat_of_ne {caller : Nat} {move : program.Move} (trace : List program.Event)
    (other : move.caller ≠ caller) :
    movesOf caller (trace ++ [.moved move]) = movesOf caller trace := by
  rw [movesOf, filterMap_concat, Event.moveOf?, if_neg other]
  exact List.append_nil _

/-- What a call has done stays so. -/
theorem movesOf_subset_concat (caller : Nat) (trace : List program.Event) (event : program.Event) :
    movesOf caller trace ⊆ movesOf caller (trace ++ [event]) := by
  intro move member
  obtain ⟨moved, own⟩ := mem_movesOf.1 member
  exact mem_movesOf.2 ⟨List.mem_append_left _ moved, own⟩

/-- A call that has begun in one stage and has come to another one with the steps. -/
inductive Course (request : program.Request) (begun : program.Phase ⊕ program.Result) :
    List program.Move → program.Phase ⊕ program.Result → Prop where
  | start : Course request begun [] begun
  | step {moves : List program.Move} {move : program.Move}
      (course : Course request begun moves (.inl move.phase)) (own : move.request = request) :
      Course request begun (moves ++ [move]) move.next.stage

/-- A call that has been answered at once makes no steps. -/
theorem Course.of_answered {request : program.Request} {result : program.Result}
    {moves : List program.Move} {stage : program.Phase ⊕ program.Result}
    (course : Course request (.inr result) moves stage) : moves = [] ∧ stage = .inr result := by
  induction course with
  | start => exact ⟨rfl, rfl⟩
  | step course own ih => cases ih.2

/-- Every step of a call has been made from where the ones before it have led. -/
theorem Course.of_mem {request : program.Request} {begun stage : program.Phase ⊕ program.Result}
    {moves : List program.Move} (course : Course request begun moves stage) {move : program.Move}
    (member : move ∈ moves) :
    move.request = request ∧ ∃ before, before ⊆ moves ∧
      Course request begun before (.inl move.phase) := by
  induction course with
  | start => cases member
  | @step moves last course own ih =>
      have earlier : moves ⊆ moves ++ [last] := List.subset_append_left _ _
      rcases List.mem_append.1 member with old | new
      · obtain ⟨same, before, inside, reached⟩ := ih old
        exact ⟨same, before, List.Subset.trans inside earlier, reached⟩
      · cases List.mem_singleton.1 new
        exact ⟨own, moves, earlier, course⟩

/-- A call makes no step before it arrives. -/
theorem Run.movesOf_eq_nil {trace : List program.Event} {system : program.System}
    (run : Run trace system) {caller : Nat} (later : system.calls.length ≤ caller) :
    movesOf caller trace = [] := by
  induction run with
  | start => rfl
  | step run step ih =>
      cases step with
      | arrive request now =>
          rw [List.length_append] at later
          rw [movesOf_concat_arrived, ih (Nat.le_of_succ_le later)]
      | stop =>
          rw [movesOf_concat_stopped, ih later]
      | move move running data free told =>
          have inside := (List.getElem?_eq_some_iff.1 running).1
          rw [List.length_set] at later
          rw [movesOf_concat_of_ne _ (by omega), ih later]

/-- A call has arrived at some time, and since then its steps have led to where it is now. -/
theorem Run.exists_course {trace : List program.Event} {system : program.System}
    (run : Run trace system) {caller : Nat} {call : program.Call}
    (found : system.calls[caller]? = some call) :
    ∃ early late before now, trace = early ++ .arrived call.request :: late ∧ Run early before ∧
      before.calls.length = caller ∧
      Course call.request (program.begin call.request before.data now) (movesOf caller trace)
        call.stage := by
  induction run generalizing call with
  | start => cases found
  | @step trace system next event run step ih =>
      cases step with
      | arrive request now =>
          rcases getElem?_calls_arrive found with ⟨rfl, rfl⟩ | before
          · refine ⟨trace, [], system, now, rfl, run, rfl, ?_⟩
            rw [movesOf_concat_arrived, run.movesOf_eq_nil (Nat.le_refl _)]
            exact .start
          · obtain ⟨early, late, first, time, split, arrived, place, course⟩ := ih before
            refine ⟨early, late ++ [.arrived request], first, time, by simp [split], arrived, place, ?_⟩
            rwa [movesOf_concat_arrived]
      | stop =>
          obtain ⟨early, late, first, time, split, arrived, place, course⟩ := ih found
          refine ⟨early, late ++ [.stopped], first, time, by simp [split], arrived, place, ?_⟩
          rwa [movesOf_concat_stopped]
      | move move running data free told =>
          rcases getElem?_calls_move found with ⟨rfl, rfl⟩ | ⟨elsewhere, before⟩
          · obtain ⟨early, late, first, time, split, arrived, place, course⟩ := ih running
            have whole : trace ++ [.moved move] =
                early ++ .arrived move.next.request :: (late ++ [.moved move]) := by
              simp [split, Move.call, Move.next]
            refine ⟨early, late ++ [.moved move], first, time, whole, arrived, place, ?_⟩
            rw [movesOf_concat_self]
            exact .step course rfl
          · obtain ⟨early, late, first, time, split, arrived, place, course⟩ := ih before
            refine ⟨early, late ++ [.moved move], first, time, by simp [split], arrived, place, ?_⟩
            rwa [movesOf_concat_of_ne _ elsewhere.symm]

end MiningPool.Program
