/-
Module: MiningPool.Proofs.Claim.OwnFailure
Purpose: what trees, datasets and claims refuse on their own is fatal.
Main exports: FailsFatally, DatasetTree.failsFatally_ofContent, Claim.failsFatally_summary,
  AuditedShare.failsFatally_select, VerificationProof.failsFatally_assemble
-/
import MiningPool.Claim.Proving
import MiningPool.Proofs.Merkle.Root

/-!
Trees, datasets and claims ask nobody. When they fail, local data can no longer be trusted, so that they
fail with fatal errors only, whatever they are given.
-/

namespace MiningPool

/-- The computation fails with fatal errors only. -/
def FailsFatally {α : Type} (result : Except Error α) : Prop :=
  ∀ error, result = .error error → error.fatal = true

namespace FailsFatally

variable {α β : Type}

theorem ok (value : α) : FailsFatally (.ok value) := fun _ same => nomatch same

theorem error {error : Error} (fatal : error.fatal = true) :
    FailsFatally (.error error : Except Error α) := by
  rintro _ ⟨⟩
  exact fatal

theorem bind {result : Except Error α} {next : α → Except Error β} (first : FailsFatally result)
    (rest : ∀ value, FailsFatally (next value)) : FailsFatally (result >>= next) := by
  cases result with
  | error error =>
      rintro _ ⟨⟩
      exact first error rfl
  | ok value => exact rest value

theorem map {result : Except Error α} (fatal : FailsFatally result) (make : α → β) :
    FailsFatally (result.map make) := by
  cases result with
  | error error =>
      rintro _ ⟨⟩
      exact fatal error rfl
  | ok value => exact .ok _

theorem mapM {items : List α} {step : α → Except Error β} (each : ∀ item, FailsFatally (step item)) :
    FailsFatally (items.mapM step) := by
  intro error failed
  obtain ⟨item, _, stepFailed⟩ := Merkle.exists_of_mapM_eq_error failed
  exact each item error stepFailed

theorem forM {items : List α} {step : α → Except Error Unit}
    (each : ∀ item, FailsFatally (step item)) : FailsFatally (items.forM step) := by
  induction items with
  | nil => exact .ok ()
  | cons item items ih => exact (each item).bind fun _ => ih

end FailsFatally

/-! ### Trees -/

section

variable {ε ν : Type}

theorem TreeBuilder.failsFatally_insert [TreeNode ε ν] (builder : TreeBuilder ε ν) (element : ε)
    (position : Nat) : FailsFatally (builder.insert element position).2 := by
  rw [insert]
  split
  · exact .ok _
  · exact .error rfl

theorem TreeBuilder.failsFatally_close [TreeNode ε ν] (builder : TreeBuilder ε ν) :
    FailsFatally builder.close := by
  rw [close]
  split
  · exact .error rfl
  · exact .ok _

theorem Tree.failsFatally_branch (tree : Tree ε ν) (position : Nat) :
    FailsFatally (tree.branch position) := by
  rw [branch]
  split
  · split
    · exact .ok _
    · exact .error rfl
  · exact .error rfl

theorem Tree.failsFatally_registeredBranches (tree : Tree ε ν) :
    FailsFatally tree.registeredBranches :=
  .mapM tree.failsFatally_branch

end

/-! ### Datasets -/

namespace DatasetReader

/-- A word is refused fatally. -/
theorem fatal_of_insertWord {reader after : DatasetReader} {word : Word} {error : Error}
    (refused : reader.insertWord word = (after, some error)) : error.fatal = true := by
  rw [insertWord] at refused
  split at refused
  · rename_i failure failed
    cases refused
    exact TreeBuilder.failsFatally_insert _ _ _ error (congrArg Prod.snd failed)
  · simp only [Prod.mk.injEq] at refused
    obtain ⟨_, full⟩ := refused
    split at full
    · cases full
      rfl
    · cases full

theorem fatal_of_takeWords {reader after : DatasetReader} {limit : Nat} {bytes : List UInt8}
    {error : Error} (refused : reader.takeWords limit bytes = (after, some error)) :
    error.fatal = true := by
  induction limit generalizing reader bytes with
  | zero => cases refused
  | succ limit ih =>
      rw [takeWords] at refused
      split at refused
      · cases refused
      · split at refused
        · rename_i inserted
          cases refused
          exact fatal_of_insertWord inserted
        · exact ih refused

theorem fatal_of_feed {reader after : DatasetReader} {bytes : List UInt8} {error : Error}
    (refused : reader.feed bytes = (after, some error)) : error.fatal = true := by
  simp only [feed] at refused
  split at refused
  · exact fatal_of_takeWords refused
  · split at refused
    · cases refused
    · exact fatal_of_takeWords refused

theorem failsFatally_finish (reader : DatasetReader) : FailsFatally reader.finish := by
  rw [finish]
  split
  · exact .error rfl
  · split
    · exact .ok _
    · exact .error rfl

/-- Content that is at hand does not fail as a stream may. -/
theorem failsFatally_read (reader : DatasetReader) (content : List UInt8) :
    FailsFatally (reader.read [.data content]).2 := by
  cases content with
  | nil => exact reader.failsFatally_finish
  | cons first content =>
      rw [read]
      split
      · rename_i fed
        exact .error (fatal_of_feed fed)
      · exact failsFatally_finish _

end DatasetReader

namespace DatasetTree

theorem failsFatally_ofContent (positions : List Nat) (content : List UInt8) :
    FailsFatally (ofContent positions content) :=
  (DatasetReader.failsFatally_read _ content).bind fun _ => TreeBuilder.failsFatally_close _

theorem failsFatally_words (tree : DatasetTree) : FailsFatally tree.words :=
  tree.failsFatally_registeredBranches.bind fun _ => .ok _

theorem failsFatally_branchElements (tree : DatasetTree) : FailsFatally tree.branchElements :=
  tree.failsFatally_registeredBranches.bind fun _ => .ok _

end DatasetTree

/-! ### Claims -/

namespace ShareTree

theorem failsFatally_counterBranch (tree : ShareTree) : FailsFatally tree.counterBranch :=
  tree.failsFatally_registeredBranches.bind fun _ => .ok _

theorem failsFatally_hashBranch (tree : ShareTree) : FailsFatally tree.hashBranch :=
  tree.failsFatally_registeredBranches.bind fun _ => .ok _

end ShareTree

namespace Claim

theorem failsFatally_insertFrom (tree : ShareTreeBuilder) (position : Nat) (shares : List Share) :
    FailsFatally (insertFrom tree position shares) := by
  induction shares generalizing tree position with
  | nil => exact .ok tree
  | cons share shares ih =>
      rw [insertFrom]
      split
      · split
        · rename_i failed
          exact .error (tree.failsFatally_insert share position _ (congrArg Prod.snd failed))
        · exact ih _ _
      · exact .error rfl

theorem failsFatally_tree (claim : Claim) (registered : Option Nat) :
    FailsFatally (claim.tree registered) := by
  rw [tree]
  split
  · rename_i failed
    exact .error (failsFatally_insertFrom _ _ _ _ failed)
  · exact TreeBuilder.failsFatally_close _

theorem failsFatally_summary (claim : Claim) : FailsFatally claim.summary := by
  rw [summary]
  split
  · exact .error rfl
  · split
    · rename_i failed
      exact .error (failsFatally_tree _ _ _ failed)
    · exact .ok _

end Claim

/-! ### Proofs -/

namespace AuditedShare

theorem failsFatally_checkBranch (tree : ShareTree) (position : Nat) :
    FailsFatally (checkBranch tree position) := by
  refine (tree.failsFatally_branch position).bind fun branch => ?_
  split
  · exact .ok ()
  · exact .error rfl

theorem failsFatally_select (claim : Claim) (index : Nat) : FailsFatally (select claim index) := by
  rw [select]
  split
  · exact .error rfl
  · split
    · exact (Claim.failsFatally_tree _ _).bind fun tree =>
        (failsFatally_checkBranch tree index).bind fun _ => .ok _
    · exact .error rfl

end AuditedShare

namespace VerificationProof

theorem failsFatally_checkBranches (tree : DatasetTree) : FailsFatally (checkBranches tree) := by
  refine tree.failsFatally_registeredBranches.bind fun branches => .forM ?_
  rintro ⟨position, branch⟩
  change FailsFatally (if _ then _ else _)
  split
  · exact .ok ()
  · exact .error rfl

theorem failsFatally_assemble (audited : AuditedShare) (dataset : DatasetTree) :
    FailsFatally (assemble audited dataset) :=
  (failsFatally_checkBranches dataset).bind fun _ =>
    dataset.failsFatally_words.bind fun _ =>
      dataset.failsFatally_branchElements.bind fun _ =>
        audited.tree.failsFatally_counterBranch.bind fun _ =>
          audited.tree.failsFatally_hashBranch.bind fun _ => .ok _

end VerificationProof

namespace Proving

theorem failsFatally_start (claim : Claim) (index : Nat) : FailsFatally (start claim index) :=
  (AuditedShare.failsFatally_select claim index).map _

theorem failsFatally_finish (audited : AuditedShare) (indices : List Nat) (content : List UInt8) :
    FailsFatally (finish audited indices (.ok content)) :=
  (DatasetTree.failsFatally_ofContent indices content).bind fun dataset =>
    VerificationProof.failsFatally_assemble audited dataset

end Proving

end MiningPool
