/-
Module: MiningPool.Proofs.Claim.FlatBranches
Purpose: the flat lists of counters and hashes lead from every registered share to the root.
Main exports: ShareTree.Recomputes, ShareTree.recomputes_of_isBranch,
  ShareTree.recomputes_of_complete, ShareTree.recomputes_of_calls
-/
import MiningPool.Proofs.Claim.Binding
import MiningPool.Proofs.Dataset.Opening
import MiningPool.Proofs.Merkle.Authentication

/-!
For every level of a path a verifier is given one of the two counters of the sibling. In counter order the
other one lies between the counters that the verifier has already, so that least and greatest counter of
every node on the way are known. Both lists hold one slice for every registration.
-/

namespace MiningPool.ShareTree

open Merkle VerificationProof

/-- A slice of the counters and one of the hashes lead from a share through the nodes above its position
to the root. -/
structure Recomputes (shares : List Share) (tree : ShareTree) (position : Nat) (share : Share)
    (counters hashes : List (FixedBytes 32)) : Prop where
  levels : ∀ height ≤ tree.depth,
    (level (leaves shares) height)[position / 2 ^ height]? =
      some (climbFrom position 0 (RangeNode.ofShare share)
        ((counters.take height).map FixedBytes.toNat) ((hashes.take height).map FixedBytes.toNat))
  root : climbFrom position 0 (RangeNode.ofShare share) (counters.map FixedBytes.toNat)
    (hashes.map FixedBytes.toNat) = tree.root

/-! ### One registration -/

theorem countersFrom_take (position count : Nat) (siblings : List (Sibling RangeNode)) :
    countersFrom position (siblings.take count) = (countersFrom position siblings).take count := by
  induction siblings generalizing position count with
  | nil => rw [List.take_nil, countersFrom, List.take_nil]
  | cons first siblings ih =>
      cases count with
      | zero => rfl
      | succ count => rw [List.take_succ_cons, countersFrom, countersFrom, List.take_succ_cons, ih]

section

variable {shares : List Share} {kept : Nat → Prop} {tree : ShareTree}

/-- The counters and hashes beside a branch lead from its share to the root. -/
theorem recomputes_of_isBranch (ascending : Claim.InOrder shares) (complete : Complete shares kept tree)
    {position : Nat} {branch : Branch Share RangeNode}
    (isBranch : IsBranch shares tree.depth position branch) :
    Recomputes shares tree position branch.element (countersFrom position branch.siblings)
      (branch.siblings.map (·.node.hash.pad)) := by
  have bottom : (leaves shares)[position]? = some (RangeNode.ofShare branch.element) := by
    rw [leaves, List.getElem?_map, isBranch.element]
    rfl
  have levels : ∀ height ≤ tree.depth,
      (level (leaves shares) height)[position / 2 ^ height]? =
        some (climbFrom position 0 (RangeNode.ofShare branch.element)
          (((countersFrom position branch.siblings).take height).map FixedBytes.toNat)
          (((branch.siblings.map (·.node.hash.pad)).take height).map FixedBytes.toNat)) := by
    intro height inside
    obtain ⟨start, isStart, siblings⟩ := isBranch.path.exists_take inside
    have climbed := climbFrom_authPath (Claim.ordered_leaves ascending)
      (Claim.bounded_leaves shares) bottom isStart
    rw [pathCounters, pathHashes, siblings, countersFrom_take] at climbed
    rw [← List.map_take]
    exact climbed
  refine ⟨levels, ?_⟩
  have count : branch.siblings.length = tree.depth := isBranch.path.length_siblings
  have top := levels tree.depth (Nat.le_refl _)
  have within : position < shares.length := (List.getElem?_eq_some_iff.1 isBranch.element).1
  rw [complete.depth, div_pow_clog within, complete.root, List.getElem?_cons_zero, Option.some.injEq,
    ← complete.depth, List.take_of_length_le (by rw [length_countersFrom, count]),
    List.take_of_length_le (by rw [List.length_map, count])] at top
  exact top.symm

end

/-! ### All registrations -/

section

variable {shares : List Share} {kept : Nat → Prop} {tree : ShareTree}

/-- Both lists hold one slice of the depth of the tree for every registration, in the order of the
registrations, and each pair of slices leads from its share to the root. -/
theorem recomputes_of_complete (ascending : Claim.InOrder shares) (complete : Complete shares kept tree)
    (inTime : ∀ position ∈ tree.registered, position < shares.length ∧ kept position) :
    ∃ counters hashes, tree.counterBranch = .ok counters ∧ tree.hashBranch = .ok hashes ∧
      counters.length = tree.depth * tree.registered.length ∧
      hashes.length = tree.depth * tree.registered.length ∧
      ∀ lookup position, tree.registered[lookup]? = some position →
        ∃ share, shares[position]? = some share ∧ Recomputes shares tree position share
          (slice tree.depth lookup counters) (slice tree.depth lookup hashes) := by
  obtain ⟨branches, found, isBranch⟩ := complete.registeredBranches inTime
  rw [← complete.depth] at isBranch
  have counterWidths : ∀ pair ∈ tree.registered.zip branches,
      (countersFrom pair.1 pair.2.siblings).length = tree.depth := by
    intro pair member
    rw [length_countersFrom]
    exact (List.forall₂_zip isBranch member).path.length_siblings
  have hashWidths : ∀ branch ∈ branches,
      (branch.siblings.map (·.node.hash.pad)).length = tree.depth := by
    intro branch member
    obtain ⟨lookup, kept⟩ := List.mem_iff_getElem?.1 member
    obtain ⟨position, _, here⟩ := exists_getElem?_of_forall₂ isBranch.flip kept
    rw [List.length_map]
    exact here.path.length_siblings
  refine ⟨_, _, by rw [counterBranch, found]; rfl, by rw [hashBranch, found]; rfl, ?_, ?_, ?_⟩
  · rw [length_flatMap_of_forall counterWidths, List.length_zip, isBranch.length_eq, Nat.min_self]
  · rw [length_flatMap_of_forall hashWidths, isBranch.length_eq]
  · intro lookup position registered
    obtain ⟨branch, kept, here⟩ := exists_getElem?_of_forall₂ isBranch registered
    have pair : (tree.registered.zip branches)[lookup]? = some (position, branch) :=
      List.getElem?_zip_eq_some.2 ⟨registered, kept⟩
    refine ⟨branch.element, here.element, ?_⟩
    rw [slice_flatMap counterWidths pair, slice_flatMap hashWidths kept]
    exact recomputes_of_isBranch ascending complete here

end

/-- For all shares in counter order and all registrations that come before their leaves, the two flat lists
can be made, and cut into slices of the depth of the tree they lead from every registered share to the
root. -/
theorem recomputes_of_calls {shares : List Share} {calls : List (TreeCall Share)}
    (nonempty : 0 < shares.length) (inOrder : insertions calls = shares.zipIdx)
    (ascending : Claim.InOrder shares)
    (inTime : ∀ position ∈ registrations calls, InTime calls position) :
    ∃ (builder : ShareTreeBuilder) (tree : ShareTree) (counters hashes : List (FixedBytes 32)),
      TreeBuilder.empty.run calls = .ok builder ∧ builder.close = .ok tree ∧
      tree.counterBranch = .ok counters ∧ tree.hashBranch = .ok hashes ∧
      counters.length = tree.depth * (registrations calls).length ∧
      hashes.length = tree.depth * (registrations calls).length ∧
      ∀ lookup position, (registrations calls)[lookup]? = some position →
        ∃ share, shares[position]? = some share ∧ Recomputes shares tree position share
          (slice tree.depth lookup counters) (slice tree.depth lookup hashes) := by
  obtain ⟨builder, tree, taken, closed, registered, complete⟩ :=
    exists_complete_of_calls (ν := RangeNode) nonempty inOrder
  have inside : ∀ position ∈ tree.registered,
      position < shares.length ∧ InTime calls position := by
    intro position member
    rw [registered] at member
    exact ⟨(inTime position member).lt_length inOrder, inTime position member⟩
  obtain ⟨counters, hashes, counterBranch, hashBranch, rest⟩ :=
    recomputes_of_complete ascending complete inside
  rw [registered] at rest
  exact ⟨builder, tree, counters, hashes, taken, closed, counterBranch, hashBranch, rest⟩

/-- Three shares of two counters, of which the last one is registered twice. -/
def threeShares : List Share :=
  [.unclassified Claim.zeroHeader 1 3 (.zero 32), .unclassified Claim.zeroHeader 1 5 (.zero 32),
    .unclassified Claim.zeroHeader 2 5 (.zero 32)]

def repeatedCalls : List (TreeCall Share) :=
  [.register [2, 0], .insert (.unclassified Claim.zeroHeader 1 3 (.zero 32)) 0,
    .insert (.unclassified Claim.zeroHeader 1 5 (.zero 32)) 1, .register [2],
    .insert (.unclassified Claim.zeroHeader 2 5 (.zero 32)) 2]

theorem recomputes_of_repeated_calls :
    insertions repeatedCalls = threeShares.zipIdx ∧ registrations repeatedCalls = [2, 0, 2] ∧
      ∃ (builder : ShareTreeBuilder) (tree : ShareTree) (counters hashes : List (FixedBytes 32)),
        TreeBuilder.empty.run repeatedCalls = .ok builder ∧ builder.close = .ok tree ∧
        tree.counterBranch = .ok counters ∧ tree.hashBranch = .ok hashes ∧
        counters.length = tree.depth * 3 ∧ hashes.length = tree.depth * 3 ∧
        ∀ lookup position, [2, 0, 2][lookup]? = some position →
          ∃ share, threeShares[position]? = some share ∧ Recomputes threeShares tree position share
            (slice tree.depth lookup counters) (slice tree.depth lookup hashes) := by
  have ascending : Claim.InOrder threeShares := by
    simp [Claim.InOrder, threeShares, Share.counter, Share.unclassified, Claim.zeroHeader]
  have zero : InTime repeatedCalls 0 :=
    ⟨repeatedCalls.take 1, _, repeatedCalls.drop 2, rfl, by decide⟩
  have two : InTime repeatedCalls 2 := ⟨repeatedCalls.take 4, _, [], rfl, by decide⟩
  have inTime : ∀ position ∈ [2, 0, 2], InTime repeatedCalls position := by
    simp only [List.forall_mem_cons, two, zero, List.not_mem_nil, false_implies, implies_true,
      and_self]
  exact ⟨rfl, rfl, recomputes_of_calls (by decide) rfl ascending inTime⟩

end MiningPool.ShareTree
