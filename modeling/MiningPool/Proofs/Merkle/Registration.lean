/-
Module: MiningPool.Proofs.Merkle.Registration
Purpose: registrations decide which branches there are, and nothing else.
Main exports: TreeBuilder.after, Merkle.admitted, Merkle.RegisteredBefore,
  Merkle.Gathered, Merkle.Registers, Merkle.registers_of_calls
-/
import MiningPool.Proofs.Merkle.Plain
import MiningPool.Proofs.Merkle.Root
import MiningPool.Share.Tree

/-!
Calls to register positions and to insert elements come in any order, and some of the insertions are
refused. Without the refused ones, the calls build the plain tree over the elements that were taken. A
position has a branch exactly if it was registered before its element was taken; lists that are gathered
from the branches of all registrations are complete, or they are not made.
-/

namespace MiningPool

variable {ε ν : Type}

/-! ### Calls that may be refused -/

/-- The call inserts an element. -/
def TreeCall.isInsertion (call : TreeCall ε) : Bool := call.insertion?.isSome

namespace TreeBuilder

variable [TreeNode ε ν]

/-- The builder after calls of which some may have been refused. -/
def after (builder : TreeBuilder ε ν) (calls : List (TreeCall ε)) : TreeBuilder ε ν :=
  calls.foldl (fun builder call => (builder.attempt call).1) builder

variable {builder : TreeBuilder ε ν} {element : ε} {position : Nat}

/-- At the next position an element is always taken, and counted. -/
theorem attempt_insert_inserted (builder : TreeBuilder ε ν) (element : ε) :
    (builder.attempt (.insert element builder.inserted)).2 = .ok () ∧
      (builder.attempt (.insert element builder.inserted)).1.inserted = builder.inserted + 1 := by
  rw [attempt, insert, if_pos rfl]
  exact ⟨rfl, rfl⟩

/-- No other position is taken, and the builder stays as it is. -/
theorem attempt_insert_of_ne (other : position ≠ builder.inserted) :
    builder.attempt (.insert element position) =
      (builder, .error (.tree (.outOfOrder position builder.inserted))) := by
  rw [attempt, insert, if_neg other]

theorem after_insert_of_ne (other : position ≠ builder.inserted) (rest : List (TreeCall ε)) :
    builder.after (.insert element position :: rest) = builder.after rest := by
  rw [after, List.foldl_cons, attempt_insert_of_ne other]
  rfl

theorem after_insert_of_eq {larger : TreeBuilder ε ν}
    (inserted : builder.insert element position = (larger, .ok ())) (rest : List (TreeCall ε)) :
    builder.after (.insert element position :: rest) = larger.after rest := by
  rw [after, List.foldl_cons, attempt, inserted]
  rfl

end TreeBuilder

namespace Merkle

/-! ### Calls that are taken -/

/-- The calls that are taken by a builder with so many leaves. -/
def admitted : Nat → List (TreeCall ε) → List (TreeCall ε)
  | _, [] => []
  | count, .register positions :: rest => .register positions :: admitted count rest
  | count, .insert element position :: rest =>
    if position = count then .insert element position :: admitted (count + 1) rest
    else admitted count rest

/-- The elements that are taken stand at the positions from the first free one on. -/
theorem insertions_admitted (count : Nat) (calls : List (TreeCall ε)) :
    insertions (admitted count calls) =
      ((insertions (admitted count calls)).map Prod.fst).zipIdx count := by
  fun_induction admitted count calls with
  | case1 => rfl
  | case2 count positions rest ih => exact ih
  | case3 element count rest ih =>
      have first : insertions (.insert element count :: admitted (count + 1) rest) =
          (element, count) :: insertions (admitted (count + 1) rest) := rfl
      rw [first, List.map_cons, List.zipIdx_cons, ← ih]
  | case4 count element position rest other ih => exact ih

theorem registrations_admitted (count : Nat) (calls : List (TreeCall ε)) :
    registrations (admitted count calls) = registrations calls := by
  fun_induction admitted count calls with
  | case1 => rfl
  | case2 count positions rest ih =>
      simp only [registrations, List.flatMap_cons] at ih ⊢
      rw [ih]
  | case3 element count rest ih => exact ih
  | case4 count element position rest other ih => exact ih

/-- Registrations do not change which elements are taken. -/
theorem insertions_admitted_filter (count : Nat) (calls : List (TreeCall ε)) :
    insertions (admitted count (calls.filter TreeCall.isInsertion)) =
      insertions (admitted count calls) := by
  fun_induction admitted count calls with
  | case1 => rfl
  | case2 count positions rest ih => exact ih
  | case3 element count rest ih =>
      rw [List.filter_cons_of_pos rfl, admitted, if_pos rfl]
      exact congrArg ((element, count) :: ·) ih
  | case4 count element position rest other ih =>
      rw [List.filter_cons_of_pos rfl, admitted, if_neg other]
      exact ih

/-- A call that is taken is taken after those before it. -/
theorem exists_of_admitted_eq {count : Nat} {calls front back : List (TreeCall ε)} {call : TreeCall ε}
    (split : admitted count calls = front ++ call :: back) :
    ∃ early late, calls = early ++ call :: late ∧ admitted count early = front := by
  fun_induction admitted count calls generalizing front with
  | case1 => exact absurd split.symm (by simp)
  | case2 count positions rest ih =>
      cases front with
      | nil =>
          cases split
          exact ⟨[], rest, rfl, rfl⟩
      | cons first front =>
          rw [List.cons_append, List.cons.injEq] at split
          obtain ⟨rfl, split⟩ := split
          obtain ⟨early, late, rfl, same⟩ := ih split
          exact ⟨.register positions :: early, late, rfl, by rw [admitted, same]⟩
  | case3 element count rest ih =>
      cases front with
      | nil =>
          cases split
          exact ⟨[], rest, rfl, rfl⟩
      | cons first front =>
          rw [List.cons_append, List.cons.injEq] at split
          obtain ⟨rfl, split⟩ := split
          obtain ⟨early, late, rfl, same⟩ := ih split
          exact ⟨.insert element count :: early, late, rfl, by rw [admitted, if_pos rfl, same]⟩
  | case4 count element position rest other ih =>
      obtain ⟨early, late, rfl, same⟩ := ih split
      exact ⟨.insert element position :: early, late, rfl, by rw [admitted, if_neg other, same]⟩

/-- What is taken of the first calls does not depend on the later ones. -/
theorem exists_admitted_append (count : Nat) (early late : List (TreeCall ε)) :
    ∃ rest, admitted count (early ++ late) = admitted count early ++ rest := by
  fun_induction admitted count early with
  | case1 count => exact ⟨admitted count late, rfl⟩
  | case2 count positions rest ih =>
      obtain ⟨more, same⟩ := ih
      refine ⟨more, ?_⟩
      rw [List.cons_append, admitted, same]
      rfl
  | case3 element count rest ih =>
      obtain ⟨more, same⟩ := ih
      refine ⟨more, ?_⟩
      rw [List.cons_append, admitted, if_pos rfl, same]
      rfl
  | case4 count element position rest other ih =>
      obtain ⟨more, same⟩ := ih
      exact ⟨more, by rw [List.cons_append, admitted, if_neg other, same]⟩

/-- The elements that a new tree takes. -/
def taken (calls : List (TreeCall ε)) : List ε := (insertions (admitted 0 calls)).map Prod.fst

section

variable [TreeNode ε ν] {calls : List (TreeCall ε)} {position : Nat}

/-- The refused calls can be left out. -/
theorem run_admitted (builder : TreeBuilder ε ν) (calls : List (TreeCall ε)) :
    builder.run (admitted builder.inserted calls) = .ok (builder.after calls) ∧
      (builder.after calls).inserted =
        builder.inserted + (insertions (admitted builder.inserted calls)).length := by
  induction calls generalizing builder with
  | nil => exact ⟨rfl, rfl⟩
  | cons call rest ih =>
      cases call with
      | register positions => exact ih (builder.register positions)
      | insert element position =>
          by_cases next : position = builder.inserted
          · obtain ⟨larger, inserted, count⟩ := TreeBuilder.exists_insert_eq next.symm element
            have attempted : builder.attempt (.insert element position) = (larger, .ok ()) := inserted
            have both := ih larger
            rw [count] at both
            rw [admitted, if_pos next, ← next, TreeBuilder.run_cons attempted,
              TreeBuilder.after_insert_of_eq inserted, both.2]
            refine ⟨both.1, ?_⟩
            rw [Nat.add_assoc, Nat.add_comm 1]
            rfl
          · rw [admitted, if_neg next, TreeBuilder.after_insert_of_ne next]
            exact ih builder

theorem inserted_after (calls : List (TreeCall ε)) :
    (TreeBuilder.empty.after calls : TreeBuilder ε ν).inserted = (taken calls).length := by
  have counted := (run_admitted (TreeBuilder.empty : TreeBuilder ε ν) calls).2
  rw [counted, taken, List.length_map]
  exact Nat.zero_add _

/-- The position has been registered at a time when its leaf was not in the tree yet. -/
def RegisteredBefore (ν : Type) [TreeNode ε ν] (calls : List (TreeCall ε)) (position : Nat) : Prop :=
  ∃ early late, calls = early ++ late ∧ position ∈ registrations early ∧
    (TreeBuilder.empty.after early : TreeBuilder ε ν).inserted ≤ position

/-- A position of a leaf has been registered before the leaf came, refused calls or not. -/
theorem inTime_admitted_iff :
    InTime (admitted 0 calls) position ↔
      position < (taken calls).length ∧ RegisteredBefore ν calls position := by
  have inOrder : insertions (admitted 0 calls) = (taken calls).zipIdx := insertions_admitted 0 calls
  constructor
  · intro inTime
    refine ⟨inTime.lt_length inOrder, ?_⟩
    obtain ⟨front, element, back, split, registered⟩ := inTime
    have place := (insertion_of_inOrder inOrder split).1
    obtain ⟨early, late, whole, same⟩ := exists_of_admitted_eq split
    refine ⟨early, .insert element position :: late, whole, ?_, ?_⟩
    · rwa [← registrations_admitted 0, same]
    · rw [inserted_after, taken, List.length_map, same, ← place]
  · rintro ⟨inside, early, late, rfl, registered, before⟩
    rw [inserted_after, taken, List.length_map] at before
    rw [← registrations_admitted 0] at registered
    obtain ⟨rest, whole⟩ := exists_admitted_append 0 early late
    have among : ((taken (early ++ late))[position], position) ∈ (taken (early ++ late)).zipIdx :=
      List.mem_zipIdx_iff_getElem?.2 (List.getElem?_eq_getElem inside)
    rw [← inOrder, insertions, List.mem_filterMap] at among
    obtain ⟨call, member, isInsertion⟩ := among
    cases call with
    | register positions => cases isInsertion
    | insert element other =>
        cases isInsertion
        obtain ⟨front, back, split⟩ := List.append_of_mem member
        have place := (insertion_of_inOrder inOrder split).1
        rw [split] at whole
        -- The leaf cannot be one of the early ones, as these are too few.
        rcases List.append_eq_append_iff.1 whole with ⟨between, same, next⟩ | ⟨between, same, _⟩
        · cases between with
          | nil =>
              rw [List.append_nil] at same
              exact ⟨front, _, back, split, same ▸ registered⟩
          | cons first between =>
              cases next
              rw [same] at before
              simp [insertions, TreeCall.insertion?] at before place
              omega
        · refine ⟨front, _, back, split, ?_⟩
          rw [same, registrations, List.flatMap_append]
          exact List.mem_append_left _ registered

end

/-! ### Lists that are gathered from branches -/

/-- A list is gathered from the branches of a tree: it is there exactly if every registered position has a
branch, it then has one entry for every registration, in order, and otherwise it fails as the branch of
some registered position does. -/
structure Gathered {α : Type} (tree : Tree ε ν) (entry : Nat → Branch ε ν → List α)
    (result : Except Error (List α)) : Prop where
  ok_iff : (∃ items, result = .ok items) ↔
    ∀ position ∈ tree.registered, ∃ branch, tree.branch position = .ok branch
  entries : ∀ items, result = .ok items → ∃ entries,
    List.Forall₂ (fun position items => ∃ branch, tree.branch position = .ok branch ∧
      items = entry position branch) tree.registered entries ∧ items = entries.flatten
  failure : ∀ error, result = .error error →
    ∃ position ∈ tree.registered, tree.branch position = .error error

/-- A branch that is not there is missing for one of two reasons. -/
theorem error_of_branch {tree : Tree ε ν} {position : Nat} {error : Error}
    (missing : tree.branch position = .error error) :
    error = .tree (if position ∈ tree.registered then .noBranch position tree.leafCount
      else .notRegistered position) := by
  rw [Tree.branch] at missing
  split at missing
  · rename_i member
    rw [if_pos member]
    split at missing
    · cases missing
    · cases missing
      rfl
  · rename_i none
    cases missing
    rw [if_neg none]

section

variable {α : Type} {tree : Tree ε ν}

/-- Every position and its branch have their entry. -/
theorem forall₂_zipWith {entry : Nat → Branch ε ν → List α} {positions : List Nat}
    {branches : List (Branch ε ν)}
    (each : List.Forall₂ (fun position branch => tree.branch position = .ok branch) positions branches) :
    List.Forall₂ (fun position items => ∃ branch, tree.branch position = .ok branch ∧
      items = entry position branch) positions (List.zipWith entry positions branches) := by
  induction each with
  | nil => exact .nil
  | cons found _ ih => exact .cons ⟨_, found, rfl⟩ ih

theorem flatten_zipWith (part : Branch ε ν → List α) {positions : List Nat}
    {branches : List (Branch ε ν)} (count : positions.length = branches.length) :
    (List.zipWith (fun _ branch => part branch) positions branches).flatten =
      branches.flatMap part := by
  calc (List.zipWith (fun _ branch => part branch) positions branches).flatten
      = ((positions.zip branches).map fun both => part both.2).flatten :=
        congrArg List.flatten List.map_uncurry_zip_eq_zipWith.symm
    _ = ((positions.zip branches).map Prod.snd).flatMap part := by
        rw [List.flatMap_def, List.map_map]
        rfl
    _ = branches.flatMap part := by rw [List.map_snd_zip (Nat.le_of_eq count.symm)]

/-- Whatever is made of all branches, entry by entry, is gathered. -/
theorem gathered {entry : Nat → Branch ε ν → List α} {make : List (Branch ε ν) → List α}
    (whole : ∀ branches, tree.registered.length = branches.length →
      make branches = (List.zipWith entry tree.registered branches).flatten) :
    Gathered tree entry (tree.registeredBranches >>= fun branches => .ok (make branches)) := by
  cases all : tree.registeredBranches with
  | error error =>
      obtain ⟨position, member, missing⟩ := exists_of_mapM_eq_error all
      refine ⟨⟨?_, ?_⟩, ?_, ?_⟩
      · rintro ⟨items, none⟩
        cases none
      · intro each
        obtain ⟨branch, found⟩ := each position member
        rw [found] at missing
        cases missing
      · intro items none
        cases none
      · intro other same
        cases same
        exact ⟨position, member, missing⟩
  | ok branches =>
      have each := forall₂_of_mapM_eq_ok all
      refine ⟨⟨?_, fun _ => ⟨_, rfl⟩⟩, ?_, ?_⟩
      · intro _ position member
        obtain ⟨index, found⟩ := List.getElem?_of_mem member
        obtain ⟨branch, _, here⟩ := exists_getElem?_of_forall₂ each found
        exact ⟨branch, here⟩
      · intro items same
        cases same
        exact ⟨_, forall₂_zipWith each, whole branches each.length_eq⟩
      · intro error none
        cases none

theorem gathered_registeredBranches (tree : Tree ε ν) :
    Gathered tree (fun _ branch => [branch]) tree.registeredBranches := by
  have whole : Gathered tree (fun _ branch => [branch])
      (tree.registeredBranches >>= fun branches => .ok branches) :=
    gathered fun branches count => by
      rw [flatten_zipWith _ count]
      exact (List.flatMap_singleton' branches).symm
  have same : (tree.registeredBranches >>= fun branches => .ok branches) =
      tree.registeredBranches := by
    cases tree.registeredBranches <;> rfl
  rwa [same] at whole

end

/-! ### The lists of datasets and of shares -/

theorem gathered_words (tree : DatasetTree) :
    Gathered tree (fun _ branch => [branch.element]) tree.words :=
  gathered fun branches count => by
    rw [flatten_zipWith (fun branch : Branch Word DatasetNode => [branch.element]) count]
    exact List.map_eq_flatMap

theorem gathered_branchElements (tree : DatasetTree) :
    Gathered tree (fun _ branch => DatasetTree.packPairs (branch.siblings.map (·.node.hash)))
      tree.branchElements :=
  gathered fun _ count => (flatten_zipWith _ count).symm

theorem gathered_counterBranch (tree : ShareTree) :
    Gathered tree (fun position branch => ShareTree.countersFrom position branch.siblings)
      tree.counterBranch :=
  gathered fun _ _ => congrArg List.flatten List.map_zip_eq_zipWith

theorem gathered_hashBranch (tree : ShareTree) :
    Gathered tree (fun _ branch => branch.siblings.map (·.node.hash.pad)) tree.hashBranch :=
  gathered fun _ count => (flatten_zipWith _ count).symm

/-! ### The tree after any calls -/

/-- Registrations decide which branches the tree after calls has, and nothing else. -/
structure Registers {ε ν : Type} [TreeNode ε ν] (calls : List (TreeCall ε)) (tree : Tree ε ν) :
    Prop where
  /-- Without the registrations, the tree is the same. -/
  plain : ∃ unregistered : Tree ε ν,
    (TreeBuilder.empty.after (calls.filter TreeCall.isInsertion)).close = .ok unregistered ∧
    unregistered.root = tree.root ∧ unregistered.leafCount = tree.leafCount ∧
    unregistered.depth = tree.depth
  leafCount : tree.leafCount = (TreeBuilder.empty.after calls : TreeBuilder ε ν).inserted
  registered : tree.registered = registrations calls
  branch_iff : ∀ position, (∃ branch, tree.branch position = .ok branch) ↔
    position < tree.leafCount ∧ RegisteredBefore ν calls position
  /-- A branch is that of the element at its position. -/
  branch_ok : ∀ position branch, tree.branch position = .ok branch →
    (taken calls)[position]? = some branch.element ∧ branch.computeRoot = tree.root
  branch_error : ∀ position error, tree.branch position = .error error → error = .tree
    (if position ∈ registrations calls then .noBranch position tree.leafCount
      else .notRegistered position)
  branches : Gathered tree (fun _ branch => [branch]) tree.registeredBranches

section

variable [TreeNode ε ν] {calls : List (TreeCall ε)}

/-- The elements that are taken make up a tree. -/
theorem exists_complete_after (nonempty : 0 < (taken calls).length) :
    ∃ tree : Tree ε ν, (TreeBuilder.empty.after calls).close = .ok tree ∧
      tree.registered = registrations calls ∧
      Complete (taken calls) (InTime (admitted 0 calls)) tree := by
  obtain ⟨builder, tree, done, closed, registered, complete⟩ :=
    exists_complete_of_calls (ν := ν) nonempty (insertions_admitted 0 calls)
  have same := (run_admitted (TreeBuilder.empty : TreeBuilder ε ν) calls).1
  obtain rfl : builder = TreeBuilder.empty.after calls := Except.ok.inj (done.symm.trans same)
  exact ⟨tree, closed, registered.trans (registrations_admitted 0 calls), complete⟩

/-- A branch that is kept is there, and no other. -/
theorem Complete.branch_iff {elements : List ε} {kept : Nat → Prop} {tree : Tree ε ν}
    (complete : Complete elements kept tree) (position : Nat) :
    (∃ branch, tree.branch position = .ok branch) ↔
      position < elements.length ∧ kept position ∧ position ∈ tree.registered := by
  constructor
  · rintro ⟨branch, found⟩
    have inside := (List.getElem?_eq_some_iff.1 (complete.isBranch found).element).1
    rw [Tree.branch] at found
    split at found
    · rename_i registered
      refine ⟨inside, ?_, registered⟩
      split at found
      · rename_i other same first
        have member := List.mem_of_find?_eq_some first
        obtain rfl : other = position := by simpa using List.find?_some first
        exact (complete.branches.sound _ _ member).2.1
      · cases found
    · cases found
  · rintro ⟨inside, isKept, registered⟩
    obtain ⟨branch, found, _⟩ := complete.branch inside isKept registered
    exact ⟨branch, found⟩

theorem registers (nonempty : 0 < (TreeBuilder.empty.after calls : TreeBuilder ε ν).inserted) :
    ∃ tree : Tree ε ν, (TreeBuilder.empty.after calls).close = .ok tree ∧ Registers calls tree := by
  rw [inserted_after] at nonempty
  have same : taken (calls.filter TreeCall.isInsertion) = taken calls :=
    congrArg (List.map Prod.fst) (insertions_admitted_filter 0 calls)
  obtain ⟨tree, closed, registered, complete⟩ := exists_complete_after (ν := ν) nonempty
  have alsoNonempty : 0 < (taken (calls.filter TreeCall.isInsertion)).length := by rwa [same]
  obtain ⟨unregistered, alsoClosed, _, plain⟩ := exists_complete_after (ν := ν) alsoNonempty
  rw [same] at plain
  refine ⟨tree, closed, ⟨unregistered, alsoClosed, ?_, ?_, ?_⟩, ?_, registered, ?_, ?_, ?_,
    gathered_registeredBranches tree⟩
  · have root := plain.root
    rw [complete.root] at root
    exact (List.singleton_inj.1 root).symm
  · rw [plain.leafCount, complete.leafCount]
  · rw [plain.depth, complete.depth]
  · rw [complete.leafCount, inserted_after]
  · intro position
    rw [complete.branch_iff, registered, complete.leafCount, inTime_admitted_iff (ν := ν)]
    constructor
    · rintro ⟨inside, ⟨_, before⟩, _⟩
      exact ⟨inside, before⟩
    · rintro ⟨inside, before⟩
      refine ⟨inside, ⟨inside, before⟩, ?_⟩
      have inTime : InTime (admitted 0 calls) position := inTime_admitted_iff.2 ⟨inside, before⟩
      rw [← registrations_admitted 0]
      exact inTime.mem_registrations
  · intro position branch found
    exact ⟨(complete.isBranch found).element, complete.computeRoot_of_branch_eq found⟩
  · intro position error missing
    rw [error_of_branch missing, registered]

end

/-- In any order of calls to register and to insert, refused ones included, only registrations that come
before the leaf of their position make a branch, and they change nothing else. The lists that are gathered
from the branches of a tree are there exactly if every registered position has its branch. -/
theorem registers_of_calls :
    (∀ (ε ν : Type) [TreeNode ε ν],
      (∀ (builder : TreeBuilder ε ν) (element : ε),
        (builder.attempt (.insert element builder.inserted)).2 = .ok () ∧
        (builder.attempt (.insert element builder.inserted)).1.inserted = builder.inserted + 1 ∧
        ∀ position, position ≠ builder.inserted →
          builder.attempt (.insert element position) =
            (builder, .error (.tree (.outOfOrder position builder.inserted)))) ∧
      ∀ calls : List (TreeCall ε), 0 < (TreeBuilder.empty.after calls : TreeBuilder ε ν).inserted →
        ∃ tree : Tree ε ν, (TreeBuilder.empty.after calls).close = .ok tree ∧ Registers calls tree) ∧
    (∀ tree : DatasetTree,
      Gathered tree (fun _ branch => [branch.element]) tree.words ∧
      Gathered tree (fun _ branch => DatasetTree.packPairs (branch.siblings.map (·.node.hash)))
        tree.branchElements) ∧
    ∀ tree : ShareTree,
      Gathered tree (fun position branch => ShareTree.countersFrom position branch.siblings)
        tree.counterBranch ∧
      Gathered tree (fun _ branch => branch.siblings.map (·.node.hash.pad)) tree.hashBranch := by
  refine ⟨fun ε ν _ => ⟨?_, ?_⟩, ?_, ?_⟩
  · intro builder element
    obtain ⟨taken, counted⟩ := builder.attempt_insert_inserted element
    exact ⟨taken, counted, fun position other => TreeBuilder.attempt_insert_of_ne other⟩
  · intro calls nonempty
    exact registers nonempty
  · intro tree
    exact ⟨gathered_words tree, gathered_branchElements tree⟩
  · intro tree
    exact ⟨gathered_counterBranch tree, gathered_hashBranch tree⟩

/-- Two words are taken and one is refused; the second position is registered in time and once more too
late, and the eighth one has no leaf. -/
def refusedCalls : List (TreeCall Word) :=
  [.register [1], .insert (.zero 128) 0, .insert (.replicate 128 1) 5, .insert (.replicate 128 1) 1,
    .register [1, 7]]

theorem registers_of_refused_calls :
    0 < (TreeBuilder.empty.after refusedCalls : DatasetBuilder).inserted ∧
      ∃ tree : DatasetTree, (TreeBuilder.empty.after refusedCalls).close = .ok tree ∧
        tree.leafCount = 2 ∧ tree.registered = [1, 1, 7] ∧ (∃ branch, tree.branch 1 = .ok branch) ∧
        tree.words = .error (.tree (.noBranch 7 2)) := by
  have nonempty : 0 < (TreeBuilder.empty.after refusedCalls : DatasetBuilder).inserted := by decide
  obtain ⟨all, datasets, _⟩ := registers_of_calls
  obtain ⟨tree, closed, registers⟩ := (all Word DatasetNode).2 refusedCalls nonempty
  have count : tree.leafCount = 2 := registers.leafCount
  have registered : tree.registered = [1, 1, 7] := registers.registered
  have second : ∃ branch, tree.branch 1 = .ok branch := by
    rw [registers.branch_iff, count]
    exact ⟨by decide, refusedCalls.take 1, refusedCalls.drop 1, rfl, by decide, by decide⟩
  have eighth : tree.branch 7 = .error (.tree (.noBranch 7 2)) := by
    cases found : tree.branch 7 with
    | ok branch =>
        have inside := ((registers.branch_iff 7).1 ⟨branch, found⟩).1
        rw [count] at inside
        exact absurd inside (by decide)
    | error error =>
        rw [registers.branch_error 7 error found, count]
        rfl
  refine ⟨nonempty, tree, closed, count, registered, second, ?_⟩
  have gathered := (datasets tree).1
  cases gatheredWords : DatasetTree.words tree with
  | ok words =>
      have member : 7 ∈ tree.registered := by
        rw [registered]
        decide
      obtain ⟨branch, found⟩ := gathered.ok_iff.1 ⟨words, gatheredWords⟩ 7 member
      rw [eighth] at found
      cases found
  | error error =>
      obtain ⟨position, member, missing⟩ := gathered.failure error gatheredWords
      obtain ⟨branch, found⟩ := second
      rw [registered] at member
      simp only [List.mem_cons, List.not_mem_nil, or_false] at member
      rcases member with rfl | rfl | rfl
      · rw [found] at missing
        cases missing
      · rw [found] at missing
        cases missing
      · rw [eighth] at missing
        cases missing
        rfl

end Merkle

end MiningPool
