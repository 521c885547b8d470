/-
Module: MiningPool.Proofs.Merkle.Elements
Purpose: the tree over a list of elements.
Main exports: TreeBuilder.insertFrom, Tree.ofElements, Merkle.ofElements_eq_ok,
  Merkle.Complete.registeredBranches
-/
import Mathlib.Data.List.Forall2
import MiningPool.Proofs.Merkle.Builder

/-!
Claims and datasets put their elements into a tree one after another, from the first position on. For
every list of elements but the empty one this comes to an end, the tree is the plain tree over them, and
every registered position of the list has its branch.
-/

namespace MiningPool

variable {ε ν : Type} [TreeNode ε ν]

namespace TreeBuilder

/-- Puts elements into a tree at the positions from `position` on. -/
def insertFrom (builder : TreeBuilder ε ν) (position : Nat) : List ε → Except Error (TreeBuilder ε ν)
  | [] => .ok builder
  | element :: rest =>
    match builder.insert element position with
    | (_, .error error) => .error error
    | (larger, .ok ()) => larger.insertFrom (position + 1) rest

/-- At the next position an element is always taken, and counted. -/
theorem exists_insert_eq {builder : TreeBuilder ε ν} {position : Nat}
    (next : builder.inserted = position) (element : ε) :
    ∃ larger, builder.insert element position = (larger, .ok ()) ∧ larger.inserted = position + 1 :=
  ⟨_, if_pos next.symm, congrArg (· + 1) next⟩

theorem insertFrom_cons {builder larger : TreeBuilder ε ν} {element : ε} {position : Nat}
    (inserted : builder.insert element position = (larger, .ok ())) (rest : List ε) :
    builder.insertFrom position (element :: rest) = larger.insertFrom (position + 1) rest := by
  rw [insertFrom, inserted]

/-- From the next position on, elements are always taken. -/
theorem exists_insertFrom_eq {builder : TreeBuilder ε ν} {position : Nat}
    (next : builder.inserted = position) (elements : List ε) :
    ∃ full, builder.insertFrom position elements = .ok full := by
  induction elements generalizing builder position with
  | nil => exact ⟨builder, rfl⟩
  | cons element elements ih =>
      obtain ⟨larger, inserted, count⟩ := exists_insert_eq next element
      rw [insertFrom_cons inserted]
      exact ih count

/-- Whatever is taken is counted. -/
theorem inserted_of_insertFrom {builder full : TreeBuilder ε ν} {position : Nat} {elements : List ε}
    (inserted : builder.insertFrom position elements = .ok full) (next : builder.inserted = position) :
    full.inserted = position + elements.length := by
  induction elements generalizing builder position with
  | nil =>
      cases inserted
      exact next
  | cons element elements ih =>
      obtain ⟨larger, taken, count⟩ := exists_insert_eq next element
      rw [insertFrom_cons taken] at inserted
      rw [ih inserted count, List.length_cons]
      omega

/-- Elements that follow others are put behind them. -/
theorem insertFrom_append {builder larger : TreeBuilder ε ν} {position : Nat} {elements : List ε}
    (inserted : builder.insertFrom position elements = .ok larger) (later : List ε) :
    builder.insertFrom position (elements ++ later) =
      larger.insertFrom (position + elements.length) later := by
  induction elements generalizing builder position with
  | nil =>
      cases inserted
      rfl
  | cons element elements ih =>
      rcases taken : builder.insert element position with ⟨next, error | _⟩
      · rw [insertFrom, taken] at inserted
        cases inserted
      · rw [insertFrom_cons taken] at inserted
        rw [List.cons_append, insertFrom_cons taken, ih inserted, List.length_cons]
        congr 1
        omega

end TreeBuilder

/-- The tree over elements, with the branches of the registered positions. -/
def Tree.ofElements (registered : List Nat) (elements : List ε) : Except Error (Tree ε ν) :=
  match (TreeBuilder.empty.register registered).insertFrom 0 elements with
  | .error error => .error error
  | .ok builder => builder.close

namespace Merkle

variable {elements rest : List ε} {kept : Nat → Prop}

/-- The rest of the elements is taken, and the stack then stands for all of them. -/
theorem insertFrom_stacked {builder : TreeBuilder ε ν} {position : Nat}
    (remaining : elements.drop position = rest) (count : builder.inserted = position)
    (inside : position ≤ elements.length)
    (registration : ∀ place, kept place ↔ place < elements.length ∧ place ∈ builder.registered)
    (stacked : Stacked elements kept position builder.stack) :
    ∃ full, builder.insertFrom position rest = .ok full ∧ full.inserted = elements.length ∧
      full.registered = builder.registered ∧
      Stacked elements kept elements.length full.stack := by
  induction rest generalizing builder position with
  | nil =>
      have all : position = elements.length := by
        have none := congrArg List.length remaining
        simp at none
        omega
      subst all
      exact ⟨builder, rfl, count, rfl, stacked⟩
  | cons element rest ih =>
      have next : elements[position]? = some element := by
        rw [← List.head?_drop, remaining, List.head?_cons]
      have before : position < elements.length := (List.getElem?_eq_some_iff.1 next).1
      subst count
      obtain ⟨larger, inserted, larger_inserted, larger_registered, largerStacked⟩ :=
        insert_stacked stacked next (by rw [registration]; exact and_iff_right before)
      obtain ⟨full, fullEq, fullInserted, fullRegistered, fullStacked⟩ :=
        ih (by rw [← List.tail_drop, remaining, List.tail_cons]) larger_inserted before
          (by rw [larger_registered]; exact registration) (larger_inserted ▸ largerStacked)
      refine ⟨full, ?_, fullInserted, fullRegistered.trans larger_registered, fullStacked⟩
      rw [TreeBuilder.insertFrom_cons inserted]
      exact fullEq

/-- The tree over elements is the plain tree. -/
theorem ofElements_eq_ok (nonempty : 0 < elements.length) (registered : List Nat) :
    ∃ tree : Tree ε ν, Tree.ofElements registered elements = .ok tree ∧
      tree.registered = registered ∧
      Complete elements (fun place => place < elements.length ∧ place ∈ registered) tree := by
  have start : Stacked elements (fun place => place < elements.length ∧ place ∈ registered) 0
      (TreeBuilder.empty.register registered : TreeBuilder ε ν).stack := rfl
  obtain ⟨full, inserted, fullInserted, fullRegistered, stacked⟩ :=
    insertFrom_stacked List.drop_zero rfl (Nat.zero_le _)
      (fun place => by simp [TreeBuilder.register, TreeBuilder.empty]) start
  have bounded : ∀ place, place < elements.length ∧ place ∈ registered →
      place < elements.length := fun place isKept => isKept.1
  obtain ⟨tree, closed, treeRegistered, complete⟩ :=
    close_stacked nonempty bounded fullInserted (fullInserted ▸ stacked)
  refine ⟨tree, ?_, ?_, complete⟩
  · rw [Tree.ofElements, inserted]
    exact closed
  · rw [treeRegistered, fullRegistered]
    simp [TreeBuilder.register, TreeBuilder.empty]

/-! ### All branches -/

/-- What every item leads to, the list of the items leads to. -/
theorem exists_mapM_eq_ok {α β : Type} {items : List α} {step : α → Except Error β}
    {related : α → β → Prop} (each : ∀ item ∈ items, ∃ result, step item = .ok result ∧
      related item result) :
    ∃ results, items.mapM step = .ok results ∧ List.Forall₂ related items results := by
  induction items with
  | nil => exact ⟨[], rfl, .nil⟩
  | cons item items ih =>
      obtain ⟨result, stepped, here⟩ := each item (List.mem_cons_self ..)
      obtain ⟨results, mapped, there⟩ :=
        ih fun other member => each other (List.mem_cons_of_mem _ member)
      refine ⟨result :: results, ?_, .cons here there⟩
      rw [List.mapM_cons, stepped, mapped]
      rfl

theorem exists_getElem?_of_forall₂ {α β : Type} {related : α → β → Prop} {items : List α}
    {results : List β} (each : List.Forall₂ related items results) {index : Nat} {item : α}
    (found : items[index]? = some item) :
    ∃ result, results[index]? = some result ∧ related item result := by
  induction each generalizing index with
  | nil => cases found
  | cons here there ih =>
      cases index with
      | zero =>
          cases found
          exact ⟨_, rfl, here⟩
      | succ index => exact ih found

/-- All positions that were registered in time have their branches, in the order of registration. -/
theorem Complete.registeredBranches {tree : Tree ε ν} (complete : Complete elements kept tree)
    (inTime : ∀ position ∈ tree.registered, position < elements.length ∧ kept position) :
    ∃ branches, tree.registeredBranches = .ok branches ∧
      List.Forall₂ (IsBranch elements (Nat.clog 2 elements.length)) tree.registered branches := by
  refine exists_mapM_eq_ok fun position registered => ?_
  obtain ⟨inside, isKept⟩ := inTime position registered
  exact complete.branch inside isKept registered

end Merkle

end MiningPool
