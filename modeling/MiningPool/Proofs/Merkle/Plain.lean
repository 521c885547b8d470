/-
Module: MiningPool.Proofs.Merkle.Plain
Purpose: a tree under any calls to register and to insert has the root of the plain tree.
Main exports: TreeCall, TreeBuilder.attempt, TreeBuilder.run, Merkle.InTime, Merkle.plainRoot?,
  Merkle.exists_complete_of_calls, Merkle.plainRoot_of_calls
-/
import MiningPool.Dataset.Tree
import MiningPool.Proofs.Merkle.Elements

/-!
Positions may be registered at any time between two leaves. A registration counts for the leaves that
come after it and changes nothing else, so that the tree is the plain tree over the leaves whatever has
been registered.
-/

namespace MiningPool

variable {ε ν : Type}

/-! ### Calls to a tree under construction -/

/-- What is asked of a tree under construction. -/
inductive TreeCall (ε : Type) where
  | register (positions : List Nat)
  | insert (element : ε) (position : Nat)

namespace TreeCall

/-- The element of a call to insert one, and its position. -/
def insertion? : TreeCall ε → Option (ε × Nat)
  | register _ => none
  | insert element position => some (element, position)

/-- The positions that a call registers. -/
def registered : TreeCall ε → List Nat
  | register positions => positions
  | insert _ _ => []

end TreeCall

/-- The insertions among calls, in order. -/
def insertions (calls : List (TreeCall ε)) : List (ε × Nat) := calls.filterMap TreeCall.insertion?

/-- The registrations among calls, in order and with repeats. -/
def registrations (calls : List (TreeCall ε)) : List Nat := calls.flatMap TreeCall.registered

namespace TreeBuilder

variable [TreeNode ε ν]

/-- What a call leaves of the builder, and its answer. -/
def attempt (builder : TreeBuilder ε ν) : TreeCall ε → TreeBuilder ε ν × Except Error Unit
  | .register positions => (builder.register positions, .ok ())
  | .insert element position => builder.insert element position

/-- The tree after all calls, none of which may be refused. -/
def run (builder : TreeBuilder ε ν) : List (TreeCall ε) → Except Error (TreeBuilder ε ν)
  | [] => .ok builder
  | call :: rest =>
    match builder.attempt call with
    | (_, .error error) => .error error
    | (next, .ok ()) => next.run rest

theorem run_cons {builder next : TreeBuilder ε ν} {call : TreeCall ε}
    (taken : builder.attempt call = (next, .ok ())) (rest : List (TreeCall ε)) :
    builder.run (call :: rest) = next.run rest := by
  rw [run, taken]

end TreeBuilder

namespace Merkle

/-- A position is registered before its leaf is inserted. -/
def InTime (calls : List (TreeCall ε)) (position : Nat) : Prop :=
  ∃ early element late, calls = early ++ .insert element position :: late ∧
    position ∈ registrations early

/-! ### Insertions in order -/

section

variable {calls early late : List (TreeCall ε)} {elements : List ε} {element : ε} {position : Nat}

/-- The elements are inserted one after the other, whatever is registered in between. -/
theorem insertion_of_inOrder (inOrder : insertions calls = elements.zipIdx)
    (split : calls = early ++ .insert element position :: late) :
    position = (insertions early).length ∧ elements[position]? = some element := by
  have found : (insertions calls)[(insertions early).length]? = some (element, position) := by
    simp [split, insertions, TreeCall.insertion?]
  rw [inOrder, List.getElem?_zipIdx, Option.map_eq_some_iff] at found
  obtain ⟨other, here, same⟩ := found
  simp only [Nat.zero_add, Prod.mk.injEq] at same
  obtain ⟨rfl, rfl⟩ := same
  exact ⟨rfl, here⟩

/-- A position is inserted only once. -/
theorem early_eq_of_inOrder (inOrder : insertions calls = elements.zipIdx)
    (split : calls = early ++ .insert element position :: late)
    {early' late' : List (TreeCall ε)} {element' : ε}
    (split' : calls = early' ++ .insert element' position :: late') : early = early' := by
  have count := (insertion_of_inOrder inOrder split).1
  have count' := (insertion_of_inOrder inOrder split').1
  rw [split] at split'
  rcases List.append_eq_append_iff.1 split' with ⟨between, rfl, rest⟩ | ⟨between, rfl, rest⟩
  · cases between with
    | nil => rw [List.append_nil]
    | cons call between =>
        cases rest
        simp [insertions, TreeCall.insertion?] at count count'
        omega
  · cases between with
    | nil => rw [List.append_nil]
    | cons call between =>
        cases rest
        simp [insertions, TreeCall.insertion?] at count count'
        omega

theorem inTime_iff (inOrder : insertions calls = elements.zipIdx)
    (split : calls = early ++ .insert element position :: late) :
    InTime calls position ↔ position ∈ registrations early := by
  constructor
  · rintro ⟨early', element', late', split', registered⟩
    rwa [early_eq_of_inOrder inOrder split split']
  · exact fun registered => ⟨early, element, late, split, registered⟩

theorem InTime.lt_length (inOrder : insertions calls = elements.zipIdx)
    (inTime : InTime calls position) : position < elements.length := by
  obtain ⟨_, _, _, split, _⟩ := inTime
  exact (List.getElem?_eq_some_iff.1 (insertion_of_inOrder inOrder split).2).1

theorem InTime.mem_registrations (inTime : InTime calls position) :
    position ∈ registrations calls := by
  obtain ⟨early, element, late, rfl, registered⟩ := inTime
  rw [registrations, List.flatMap_append]
  exact List.mem_append_left _ registered

end

/-! ### The tree after the calls -/

variable [TreeNode ε ν] {elements : List ε} {calls before rest : List (TreeCall ε)}

/-- The rest of the calls is taken, and the stack then stands for all leaves. -/
theorem run_stacked (inOrder : insertions calls = elements.zipIdx) {builder : TreeBuilder ε ν}
    (split : calls = before ++ rest) (registered : builder.registered = registrations before)
    (inserted : builder.inserted = (insertions before).length)
    (stacked : Stacked elements (InTime calls) builder.inserted builder.stack) :
    ∃ full, builder.run rest = .ok full ∧ full.registered = registrations calls ∧
      full.inserted = elements.length ∧
      Stacked elements (InTime calls) full.inserted full.stack := by
  induction rest generalizing before builder with
  | nil =>
      obtain rfl : calls = before := by rw [split, List.append_nil]
      refine ⟨builder, rfl, registered, ?_, stacked⟩
      rw [inserted, inOrder, List.length_zipIdx]
  | cons call rest ih =>
      have next : calls = (before ++ [call]) ++ rest := by
        rw [split, List.append_assoc, List.singleton_append]
      cases call with
      | register positions =>
          rw [TreeBuilder.run_cons rfl]
          refine ih next ?_ ?_ stacked
          · simp [TreeBuilder.register, registered, registrations, TreeCall.registered]
          · simp [TreeBuilder.register, inserted, insertions, TreeCall.insertion?]
      | insert element position =>
          obtain ⟨place, here⟩ := insertion_of_inOrder inOrder split
          have isNext : position = builder.inserted := by rw [place, inserted]
          subst isNext
          have registration : InTime calls builder.inserted ↔
              builder.inserted ∈ builder.registered := by
            rw [registered]
            exact inTime_iff inOrder split
          obtain ⟨larger, taken, count, same, largerStacked⟩ :=
            insert_stacked stacked here registration
          have attempted : builder.attempt (.insert element builder.inserted) = (larger, .ok ()) := taken
          rw [TreeBuilder.run_cons attempted]
          refine ih next ?_ ?_ largerStacked
          · simp [same, registered, registrations, TreeCall.registered]
          · simp [count, inserted, insertions, TreeCall.insertion?]

/-- All calls are taken, and the tree over all elements can be closed. -/
theorem exists_complete_of_calls (nonempty : 0 < elements.length)
    (inOrder : insertions calls = elements.zipIdx) :
    ∃ (builder : TreeBuilder ε ν) (tree : Tree ε ν), TreeBuilder.empty.run calls = .ok builder ∧
      builder.close = .ok tree ∧ tree.registered = registrations calls ∧
      Complete elements (InTime calls) tree := by
  have start : Stacked elements (InTime calls) 0 (TreeBuilder.empty : TreeBuilder ε ν).stack := rfl
  have nothing : (TreeBuilder.empty : TreeBuilder ε ν).registered =
      registrations ([] : List (TreeCall ε)) := rfl
  obtain ⟨full, taken, registered, inserted, stacked⟩ :=
    run_stacked inOrder (List.nil_append calls).symm nothing rfl start
  obtain ⟨tree, closed, treeRegistered, complete⟩ :=
    close_stacked nonempty (fun _ inTime => inTime.lt_length inOrder) inserted stacked
  exact ⟨full, tree, taken, closed, treeRegistered.trans registered, complete⟩

/-! ### The root of the plain tree -/

/-- The root above nodes: as long as there are several, neighbours are combined, the last node of an odd
level with itself. -/
def plainRoot? : List ν → Option ν
  | [] => none
  | [root] => some root
  | left :: right :: rest => plainRoot? (pairUp (left :: right :: rest))
termination_by nodes => nodes.length
decreasing_by
  rw [length_pairUp]
  simp only [List.length_cons]
  omega

theorem level_pairUp (nodes : List ν) (height : Nat) :
    level (pairUp nodes) height = level nodes (height + 1) := by
  induction height with
  | zero => rfl
  | succ height ih => rw [level_succ, ih, level_succ _ (height + 1)]

/-- The root stands on the level whose height is the binary logarithm, rounded up. -/
theorem plainRoot?_eq (nodes : List ν) :
    plainRoot? nodes = (level nodes (Nat.clog 2 nodes.length)).head? := by
  fun_induction plainRoot? nodes with
  | case1 => simp
  | case2 root => simp
  | case3 left right rest ih =>
      have several : 2 ≤ (left :: right :: rest).length := by simp
      have height : Nat.clog 2 (left :: right :: rest).length =
          Nat.clog 2 (pairUp (left :: right :: rest)).length + 1 := by
        rw [length_pairUp, Nat.clog_of_two_le Nat.one_lt_two several]
        rfl
      rw [ih, level_pairUp, ← height]

/-- For every list of elements but the empty one and whatever is registered in between, the elements are
taken at the positions from zero on, and the root of the tree is that of the plain tree. -/
theorem plainRoot_of_calls (nonempty : 0 < elements.length)
    (inOrder : insertions calls = elements.zipIdx) :
    ∃ (builder : TreeBuilder ε ν) (tree : Tree ε ν), TreeBuilder.empty.run calls = .ok builder ∧
      builder.close = .ok tree ∧ plainRoot? (leaves elements) = some tree.root ∧
      tree.leafCount = elements.length ∧ tree.depth = Nat.clog 2 elements.length := by
  obtain ⟨builder, tree, taken, closed, _, complete⟩ :=
    exists_complete_of_calls (ν := ν) nonempty inOrder
  refine ⟨builder, tree, taken, closed, ?_, complete.leafCount, complete.depth⟩
  rw [plainRoot?_eq, length_leaves, complete.root, List.head?_cons]

/-- Three different words. -/
def threeWords : List Word := [.zero 128, .replicate 128 1, .replicate 128 2]

/-- Three words, of which the second one is registered too late; the fourth one never comes. -/
def threeCalls : List (TreeCall Word) :=
  [.register [2, 3], .insert (.zero 128) 0, .insert (.replicate 128 1) 1, .register [1, 2],
    .insert (.replicate 128 2) 2]

theorem plainRoot_of_three_calls :
    0 < threeWords.length ∧ insertions threeCalls = threeWords.zipIdx ∧
      ∃ (builder : DatasetBuilder) (tree : DatasetTree),
        TreeBuilder.empty.run threeCalls = .ok builder ∧ builder.close = .ok tree ∧
        plainRoot? (leaves threeWords) = some tree.root ∧ tree.leafCount = 3 ∧ tree.depth = 2 := by
  have inOrder : insertions threeCalls = threeWords.zipIdx := rfl
  obtain ⟨builder, tree, taken, closed, root, count, depth⟩ :=
    plainRoot_of_calls (ν := DatasetNode) (by decide) inOrder
  have height : Nat.clog 2 threeWords.length = 2 := by decide +kernel
  exact ⟨by decide, inOrder, builder, tree, taken, closed, root, count, depth.trans height⟩

end Merkle

end MiningPool
