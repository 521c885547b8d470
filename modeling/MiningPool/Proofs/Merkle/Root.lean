/-
Module: MiningPool.Proofs.Merkle.Root
Purpose: the branches of a finished tree lead to its root, and which branches it has.
Main exports: Merkle.IsBranch.computeRoot_eq, Merkle.Complete.computeRoot_of_branch_eq,
  Merkle.Complete.of_branch_eq_error
-/
import MiningPool.Proofs.Merkle.Elements

/-!
A branch is combined from the leaf up. As each of its siblings stands beside the path in the plain tree,
every level of the climb is the node of the plain tree above the leaf, up to the only node of the last
level, which is the root.
-/

namespace MiningPool

variable {ε ν : Type} [TreeNode ε ν]

namespace Branch

theorem computeRoot_acceptLeft (branch : Branch ε ν) (sibling : ν) :
    (branch.acceptLeft sibling).computeRoot = TreeNode.combine sibling branch.computeRoot := by
  simp [computeRoot, acceptLeft, siblings, leaf, Path.siblings, Path.bottom, climb]

theorem computeRoot_acceptRight (branch : Branch ε ν) (sibling : ν) :
    (branch.acceptRight sibling).computeRoot = TreeNode.combine branch.computeRoot sibling := by
  simp [computeRoot, acceptRight, siblings, leaf, Path.siblings, Path.bottom, climb]

end Branch

namespace Merkle

variable {elements : List ε} {kept : Nat → Prop}

/-- A path leads to the node above its position. -/
theorem AuthPath.getElem?_computeRoot {nodes : List ν} {position height : Nat} {path : Path ν}
    (authPath : AuthPath nodes position height path) (element : ε) :
    (level nodes height)[position / 2 ^ height]? =
      some (⟨element, path⟩ : Branch ε ν).computeRoot := by
  induction authPath with
  | leaf bottom =>
      rw [Nat.pow_zero, Nat.div_one, level_zero, bottom]
      rfl
  | @afterNode height sibling below lower odd neighbour ih =>
      have above := getElem?_pairUp_beside ih neighbour
      rw [if_pos odd] at above
      rw [level_succ, div_pow_succ, above]
      exact congrArg some (Branch.computeRoot_acceptLeft ⟨element, below⟩ sibling).symm
  | @beforeNode height sibling below lower even neighbour ih =>
      have above := getElem?_pairUp_beside ih neighbour
      rw [if_neg (by omega)] at above
      rw [level_succ, div_pow_succ, above]
      exact congrArg some (Branch.computeRoot_acceptRight ⟨element, below⟩ sibling).symm

/-- In a finished tree, branches lead to the root. -/
theorem IsBranch.computeRoot_eq {tree : Tree ε ν} (complete : Complete elements kept tree)
    {position : Nat} {branch : Branch ε ν}
    (isBranch : IsBranch elements (Nat.clog 2 elements.length) position branch) :
    branch.computeRoot = tree.root := by
  have inside : position < elements.length := (List.getElem?_eq_some_iff.1 isBranch.element).1
  have reached := isBranch.path.getElem?_computeRoot branch.element
  rw [complete.root, div_pow_clog inside, List.getElem?_cons_zero] at reached
  exact (Option.some.inj reached).symm

namespace Complete

variable {tree : Tree ε ν} (complete : Complete elements kept tree)

include complete

/-- A finished tree has no other branches. -/
theorem isBranch {position : Nat} {branch : Branch ε ν} (found : tree.branch position = .ok branch) :
    IsBranch elements (Nat.clog 2 elements.length) position branch := by
  rw [Tree.branch] at found
  split at found
  · split at found
    · rename_i other same first
      cases found
      have member := List.mem_of_find?_eq_some first
      obtain rfl : other = position := by simpa using List.find?_some first
      exact (complete.branches.sound _ _ member).2.2
    · cases found
  · cases found

theorem computeRoot_of_branch_eq {position : Nat} {branch : Branch ε ν}
    (found : tree.branch position = .ok branch) : branch.computeRoot = tree.root :=
  (complete.isBranch found).computeRoot_eq complete

/-- A registered position is without a branch only if it has no leaf. -/
theorem of_branch_eq_error {position : Nat} {error : Error}
    (registered : position ∈ tree.registered)
    (inTime : position < elements.length → kept position)
    (missing : tree.branch position = .error error) :
    elements.length ≤ position ∧ error = .tree (.noBranch position elements.length) := by
  constructor
  · by_contra outside
    have inside : position < elements.length := Nat.lt_of_not_le outside
    obtain ⟨branch, found, _⟩ := complete.branch inside (inTime inside) registered
    rw [found] at missing
    cases missing
  · rw [Tree.branch, if_pos registered] at missing
    split at missing
    · cases missing
    · cases missing
      rw [complete.leafCount]

/-- A registered position without a leaf is without a branch. -/
theorem branch_eq_error {position : Nat} (registered : position ∈ tree.registered)
    (outside : elements.length ≤ position) :
    tree.branch position = .error (.tree (.noBranch position elements.length)) := by
  cases found : tree.branch position with
  | ok branch =>
      have inside := (List.getElem?_eq_some_iff.1 (complete.isBranch found).element).1
      exact absurd inside (Nat.not_lt.2 outside)
  | error error =>
      have missing := complete.of_branch_eq_error registered
        (fun inside => absurd inside (Nat.not_lt.2 outside)) found
      rw [missing.2]

end Complete

/-! ### Monadic maps -/

/-- A monadic map leads to one result for every item. -/
theorem forall₂_of_mapM_eq_ok {α β : Type} {items : List α} {step : α → Except Error β}
    {results : List β} (mapped : items.mapM step = .ok results) :
    List.Forall₂ (fun item result => step item = .ok result) items results := by
  induction items generalizing results with
  | nil =>
      cases mapped
      exact .nil
  | cons item items ih =>
      rw [List.mapM_cons] at mapped
      cases stepped : step item with
      | error error =>
          rw [stepped] at mapped
          cases mapped
      | ok first =>
          rw [stepped] at mapped
          cases others : items.mapM step with
          | error error =>
              rw [others] at mapped
              cases mapped
          | ok rest =>
              rw [others] at mapped
              cases mapped
              exact .cons stepped (ih others)

/-- What a monadic map leads to comes from the items. -/
theorem exists_of_mapM_eq_ok {α β : Type} {items : List α} {step : α → Except Error β}
    {results : List β} (mapped : items.mapM step = .ok results) :
    ∀ result ∈ results, ∃ item ∈ items, step item = .ok result := by
  intro result member
  obtain ⟨index, found⟩ := List.getElem?_of_mem member
  obtain ⟨item, here, stepped⟩ :=
    exists_getElem?_of_forall₂ (forall₂_of_mapM_eq_ok mapped).flip found
  exact ⟨item, List.mem_of_getElem? here, stepped⟩

/-- A monadic map fails with the failure of an item. -/
theorem exists_of_mapM_eq_error {α β : Type} {items : List α} {step : α → Except Error β}
    {error : Error} (failed : items.mapM step = .error error) :
    ∃ item ∈ items, step item = .error error := by
  induction items with
  | nil => cases failed
  | cons item items ih =>
      rw [List.mapM_cons] at failed
      cases stepped : step item with
      | error first =>
          rw [stepped] at failed
          cases failed
          exact ⟨item, List.mem_cons_self, stepped⟩
      | ok result =>
          rw [stepped] at failed
          cases others : items.mapM step with
          | error later =>
              rw [others] at failed
              cases failed
              obtain ⟨other, among, same⟩ := ih others
              exact ⟨other, List.mem_cons_of_mem _ among, same⟩
          | ok rest =>
              rw [others] at failed
              cases failed

/-- A monadic map fails with the failure of the first item that fails. -/
theorem mapM_eq_error {α β : Type} {earlier later : List α} {item : α} {step : α → Except Error β}
    {error : Error} (fine : ∀ other ∈ earlier, ∃ result, step other = .ok result)
    (failed : step item = .error error) : (earlier ++ item :: later).mapM step = .error error := by
  induction earlier with
  | nil =>
      rw [List.nil_append, List.mapM_cons, failed]
      rfl
  | cons first earlier ih =>
      obtain ⟨result, stepped⟩ := fine first List.mem_cons_self
      rw [List.cons_append, List.mapM_cons, stepped,
        ih fun other member => fine other (List.mem_cons_of_mem _ member)]
      rfl

/-- The first registered position without a leaf is what the branches fail for. -/
theorem Complete.registeredBranches_eq_error {tree : Tree ε ν} (complete : Complete elements kept tree)
    {before after : List Nat} {position : Nat} (registered : tree.registered = before ++ position :: after)
    (inTime : ∀ earlier ∈ before, earlier < elements.length ∧ kept earlier)
    (outside : elements.length ≤ position) :
    tree.registeredBranches = .error (.tree (.noBranch position elements.length)) := by
  have fine : ∀ earlier ∈ before, ∃ branch, tree.branch earlier = .ok branch := by
    intro earlier member
    obtain ⟨inside, isKept⟩ := inTime earlier member
    have amongRegistered : earlier ∈ tree.registered := by
      rw [registered]
      exact List.mem_append_left _ member
    obtain ⟨branch, found, _⟩ := complete.branch inside isKept amongRegistered
    exact ⟨branch, found⟩
  have isRegistered : position ∈ tree.registered := by simp [registered]
  rw [Tree.registeredBranches, registered]
  exact mapM_eq_error fine (complete.branch_eq_error isRegistered outside)

theorem forM_eq_ok {α : Type} {items : List α} {step : α → Except Error Unit}
    (each : ∀ item ∈ items, step item = .ok ()) : items.forM step = .ok () := by
  induction items with
  | nil => rfl
  | cons item items ih =>
      rw [List.forM, each item List.mem_cons_self]
      exact ih fun other member => each other (List.mem_cons_of_mem _ member)

end Merkle

end MiningPool
