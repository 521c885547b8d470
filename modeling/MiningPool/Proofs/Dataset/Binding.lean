/-
Module: MiningPool.Proofs.Dataset.Binding
Purpose: root and size of a dataset tree commit to the words.
Main exports: DatasetNode.binding, DatasetTree.words_eq_or_collision
-/
import MiningPool.Proofs.Dataset.Reader
import MiningPool.Proofs.Dataset.Word
import MiningPool.Proofs.Merkle.Binding

/-!
The hash of a parent is taken of the hashes of its children behind zeros, which has one reading; the hash of
a leaf is taken of the bytes of the word.
-/

namespace MiningPool

theorem NodeHash.pad_injective {left right : NodeHash} (same : left.pad = right.pad) :
    left = right := by
  have long : ∀ hash : NodeHash, hash.toList.length ≤ 32 := fun hash => by
    rw [hash.length_toList]
    decide
  apply FixedBytes.toNat_inj.1
  have values := congrArg FixedBytes.toNat same
  rwa [NodeHash.pad, NodeHash.pad, toNat_pad32 (long left), toNat_pad32 (long right)] at values

/-- A string of known length and what follows it have one reading. -/
theorem FixedBytes.append_inj {n : Nat} {first first' : FixedBytes n} {rest rest' : List UInt8}
    (same : first.toList ++ rest = first'.toList ++ rest') : first = first' ∧ rest = rest' := by
  obtain ⟨firsts, rests⟩ :=
    List.append_inj same (first.length_toList.trans first'.length_toList.symm)
  exact ⟨toList_injective firsts, rests⟩

instance : HashedNode Word DatasetNode where
  hash := DatasetNode.hash
  leafInput := Word.conventional
  parentInput left right := left.hash.pad.toList ++ right.hash.pad.toList
  hash_leaf _ := rfl
  hash_combine _ _ := rfl

namespace DatasetNode

theorem binding : Merkle.Binding fun left right : DatasetNode => left.hash = right.hash where
  hash same := same
  children := by
    intro left right left' right' inputs
    obtain ⟨lefts, rights⟩ := FixedBytes.append_inj inputs
    exact ⟨NodeHash.pad_injective lefts,
      NodeHash.pad_injective (FixedBytes.toList_injective rights)⟩

end DatasetNode

namespace DatasetTree

open Merkle

/-- Datasets with one root and one number of words have the same words, or two of the strings that were
hashed for their trees collide. -/
theorem words_eq_or_collision {left right : List Word} {kept others : Nat → Prop}
    {tree tree' : DatasetTree} (nonempty : 0 < left.length) (complete : Complete left kept tree)
    (complete' : Complete right others tree') (root : tree.summary.root = tree'.summary.root)
    (count : tree.summary.elementCount = tree'.summary.elementCount) :
    left = right ∨ Collision (hashedStrings DatasetNode left ++ hashedStrings DatasetNode right) := by
  have lengths : left.length = right.length := by
    rw [← complete.leafCount, ← complete'.leafCount]
    exact count
  rcases forall₂_of_root DatasetNode.binding complete complete' nonempty lengths root with
    alike | collision
  · left
    rw [← List.forall₂_eq_eq_eq]
    exact alike.imp fun _ _ pair => Word.conventional_injective pair.2
  · exact .inr collision

end DatasetTree

end MiningPool
