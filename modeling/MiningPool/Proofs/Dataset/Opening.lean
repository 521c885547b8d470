/-
Module: MiningPool.Proofs.Dataset.Opening
Purpose: what a verifier makes of the dataset words and branches of a proof.
Main exports: DatasetSummary.Opens, DatasetSummary.OpensAll, DatasetTree.hashFrom_authPath,
  DatasetTree.opensAll_of_words
-/
import MiningPool.Proofs.Dataset.Flaws
import MiningPool.Proofs.Dataset.Word

/-!
A verifier knows the summary of a dataset and is given one list of integers for the words and another one
for their branches. Both are cut into slices, one for every lookup. Four integers hash to a leaf; the
integers of a branch are unpacked into node hashes, and the binary digits of the position tell on which
side each of them stands on the way up to the root. Where the number of levels is odd, one hash is left
over.
-/

namespace MiningPool

/-! ### Slices -/

/-- The items of the slice with this index, where every slice has the same width. -/
def slice {α : Type} (width index : Nat) (items : List α) : List α :=
  (items.drop (width * index)).take width

theorem slice_map {α β : Type} (width index : Nat) (f : α → β) (items : List α) :
    slice width index (items.map f) = (slice width index items).map f := by
  rw [slice, slice, List.map_take, List.map_drop]

theorem slice_flatMap {α β : Type} {width index : Nat} {f : α → List β} {items : List α} {item : α}
    (each : ∀ item ∈ items, (f item).length = width) (found : items[index]? = some item) :
    slice width index (items.flatMap f) = f item := by
  induction items generalizing index with
  | nil => cases found
  | cons first items ih =>
      have head := each first List.mem_cons_self
      rw [List.flatMap_cons, slice]
      cases index with
      | zero =>
          cases found
          rw [Nat.mul_zero, List.drop_zero, List.take_left' head]
      | succ index =>
          rw [Nat.mul_succ, Nat.add_comm, ← List.drop_drop, List.drop_left' head]
          exact ih (fun _ member => each _ (.tail _ member)) found

/-! ### The verifier -/

namespace DatasetSummary

/-- The hash of the word with these integers. -/
def leafHash (integers : List Nat) : NodeHash :=
  truncatedKeccak (integers.flatMap fun integer => (natPad32 integer).toList)

/-- The node hashes in the integers of a branch, from the bottom up. -/
def unpack (packed : List Nat) : List NodeHash :=
  packed.flatMap fun integer =>
    [BranchElement.second (natPad32 integer), BranchElement.first (natPad32 integer)]

/-- The hash one level up, from a node on the right if `odd`. -/
def hashUp (odd : Bool) (own sibling : NodeHash) : NodeHash :=
  if odd then truncatedKeccak (sibling.pad.toList ++ own.pad.toList)
  else truncatedKeccak (own.pad.toList ++ sibling.pad.toList)

/-- The hash above a node at a height, as far as there are siblings. -/
def hashFrom (position height : Nat) (own : NodeHash) : List NodeHash → NodeHash
  | [] => own
  | sibling :: rest =>
    hashFrom position (height + 1) (hashUp (position.testBit height) own sibling) rest

/-- The integers of a word and of its branch show the word at a position of a dataset with this
summary. -/
structure Opens (summary : DatasetSummary) (depth position : Nat) (word : Word)
    (integers packed : List Nat) : Prop where
  leaf : leafHash integers = (TreeNode.leaf word : DatasetNode).hash
  root : hashFrom position 0 (leafHash integers) ((unpack packed).take depth) = summary.root
  rest : (unpack packed).drop depth = List.replicate (depth % 2) (FixedBytes.zero 16)

/-- The integers of a proof, cut into slices, show the word of every lookup. -/
structure OpensAll (summary : DatasetSummary) (words : List Word) (positions : List Nat) (depth : Nat)
    (integers packed : List Nat) : Prop where
  length_integers : integers.length = 4 * positions.length
  length_packed : packed.length = (depth + 1) / 2 * positions.length
  opens : ∀ lookup position, positions[lookup]? = some position →
    ∃ word, words[position]? = some word ∧
      summary.Opens depth position word (slice 4 lookup integers)
        (slice ((depth + 1) / 2) lookup packed)

/-! ### Packing -/

/-- An element is unpacked into the lower hash and the upper one. -/
theorem unpack_pack (upper lower : NodeHash) (packed : List Nat) :
    unpack ((BranchElement.pack upper lower).toNat :: packed) = lower :: upper :: unpack packed := by
  have second : (BranchElement.pack upper lower).second = lower :=
    FixedBytes.toList_injective (List.drop_left' upper.length_toList)
  have first : (BranchElement.pack upper lower).first = upper :=
    FixedBytes.toList_injective (List.take_left' upper.length_toList)
  rw [unpack, List.flatMap_cons, natPad32_toNat, second, first]
  rfl

/-- What was packed is unpacked, behind it a zero hash where the number of hashes is odd. -/
theorem unpack_packPairs (hashes : List NodeHash) :
    unpack ((DatasetTree.packPairs hashes).map FixedBytes.toNat) =
      hashes ++ List.replicate (hashes.length % 2) (FixedBytes.zero 16) := by
  fun_induction DatasetTree.packPairs hashes with
  | case1 => rfl
  | case2 lower =>
      rw [List.map_cons, unpack_pack]
      rfl
  | case3 lower upper rest ih =>
      rw [List.map_cons, unpack_pack, ih, List.length_cons, List.length_cons, Nat.add_assoc,
        Nat.add_mod_right]
      rfl

theorem length_packPairs (hashes : List NodeHash) :
    (DatasetTree.packPairs hashes).length = (hashes.length + 1) / 2 := by
  fun_induction DatasetTree.packPairs hashes with
  | case1 => rfl
  | case2 lower => simp
  | case3 lower upper rest ih =>
      simp only [List.length_cons, ih]
      omega

/-- The highest level comes last. -/
theorem hashFrom_concat (position height : Nat) (own : NodeHash) (siblings : List NodeHash)
    (last : NodeHash) :
    hashFrom position height own (siblings ++ [last]) =
      hashUp (position.testBit (height + siblings.length))
        (hashFrom position height own siblings) last := by
  induction siblings generalizing height own with
  | nil => rfl
  | cons first siblings ih =>
      rw [List.cons_append, hashFrom, ih, hashFrom, List.length_cons, Nat.add_assoc,
        Nat.add_comm 1]

end DatasetSummary

namespace DatasetTree

open Merkle DatasetSummary

/-- The hashes beside a path. -/
def pathHashes (path : Path DatasetNode) : List NodeHash := path.siblings.map (·.node.hash)

theorem length_pathHashes (path : Path DatasetNode) :
    (pathHashes path).length = path.siblings.length :=
  List.length_map ..

/-- The way up with the hashes beside a path leads through the nodes above its position. -/
theorem hashFrom_authPath {nodes : List DatasetNode} {position height : Nat}
    {path : Path DatasetNode} {own : DatasetNode} (bottom : nodes[position]? = some own)
    (authPath : AuthPath nodes position height path) :
    (level nodes height)[position / 2 ^ height]? =
      some ⟨hashFrom position 0 own.hash (pathHashes path)⟩ := by
  induction authPath with
  | leaf =>
      rw [level_zero, Nat.pow_zero, Nat.div_one]
      exact bottom
  | @afterNode height sibling below lower odd neighbour ih =>
      have hashes : pathHashes (.afterNode sibling below) = pathHashes below ++ [sibling.hash] := by
        simp [pathHashes, Path.siblings]
      rw [hashes, hashFrom_concat, length_pathHashes, lower.length_siblings, Nat.zero_add,
        testBit_of_mod odd, level_succ, div_pow_succ, getElem?_pairUp_beside ih neighbour, if_pos odd]
      rfl
  | @beforeNode height sibling below lower even neighbour ih =>
      have hashes : pathHashes (.beforeNode below sibling) = pathHashes below ++ [sibling.hash] := by
        simp [pathHashes, Path.siblings]
      rw [hashes, hashFrom_concat, length_pathHashes, lower.length_siblings, Nat.zero_add,
        testBit_of_mod_zero even, level_succ, div_pow_succ, getElem?_pairUp_beside ih neighbour,
        if_neg (by omega)]
      rfl

/-! ### One lookup -/

section

variable {words : List Word} {kept : Nat → Prop} {tree : DatasetTree}

/-- The integers of the word and the packed siblings of a branch show the word. -/
theorem opens_of_isBranch (complete : Complete words kept tree) {position : Nat}
    {branch : Branch Word DatasetNode} (isBranch : IsBranch words tree.depth position branch) :
    tree.summary.Opens tree.depth position branch.element branch.element.integers
      ((packPairs (pathHashes branch.path)).map FixedBytes.toNat) := by
  have leaf : leafHash branch.element.integers = (TreeNode.leaf branch.element : DatasetNode).hash :=
    congrArg truncatedKeccak branch.element.flatMap_integers
  have depth : (pathHashes branch.path).length = tree.depth := by
    rw [length_pathHashes, isBranch.path.length_siblings]
  have unpacked := unpack_packPairs (pathHashes branch.path)
  rw [depth] at unpacked
  have bottom : (leaves words : List DatasetNode)[position]? = some (TreeNode.leaf branch.element) := by
    rw [leaves, List.getElem?_map, isBranch.element, Option.map_some]
  have climbed := hashFrom_authPath bottom isBranch.path
  have inside : position < words.length := (List.getElem?_eq_some_iff.1 isBranch.element).1
  rw [complete.depth, div_pow_clog inside, complete.root, List.getElem?_cons_zero, Option.some.injEq] at climbed
  constructor
  · exact leaf
  · rw [unpacked, List.take_left' depth, leaf, ← DatasetNode.mk.injEq, ← climbed]
    rfl
  · rw [unpacked, List.drop_left' depth]

/-- What a tree with branches hands out shows the words of all lookups. -/
theorem opensAll_of_complete (complete : Complete words kept tree) {positions : List Nat}
    {branches : List (Branch Word DatasetNode)}
    (isBranch : List.Forall₂ (IsBranch words tree.depth) positions branches) :
    tree.summary.OpensAll words positions tree.depth
      ((branches.map (·.element)).flatMap Word.integers)
      ((branches.flatMap fun branch => packPairs (pathHashes branch.path)).map FixedBytes.toNat) := by
  have widths : ∀ branch ∈ branches,
      (packPairs (pathHashes branch.path)).length = (tree.depth + 1) / 2 := by
    intro branch member
    obtain ⟨lookup, found⟩ := List.mem_iff_getElem?.1 member
    obtain ⟨position, _, here⟩ := exists_getElem?_of_forall₂ isBranch.flip found
    rw [length_packPairs, length_pathHashes, here.path.length_siblings]
  constructor
  · rw [length_flatMap_of_forall fun word _ => word.length_integers, List.length_map,
      isBranch.length_eq]
  · rw [List.length_map, length_flatMap_of_forall widths, isBranch.length_eq]
  · intro lookup position found
    obtain ⟨branch, kept, here⟩ := exists_getElem?_of_forall₂ isBranch found
    refine ⟨branch.element, here.element, ?_⟩
    have element : (branches.map (·.element))[lookup]? = some branch.element := by
      rw [List.getElem?_map, kept, Option.map_some]
    rw [slice_flatMap (fun word _ => word.length_integers) element, slice_map,
      slice_flatMap widths kept]
    exact opens_of_isBranch complete here

end

/-! ### The published summary -/

theorem binaryDigits_pred {count : Nat} (several : 2 ≤ count) :
    binaryDigits (count - 1) = Nat.clog 2 count := by
  apply Nat.le_antisymm
  · apply (Nat.lt_clog_iff_pow_lt Nat.one_lt_two).2
    have low := Nat.log2_self_le (n := count - 1) (by omega)
    omega
  · apply Nat.clog_le_of_le_pow
    have high := Nat.lt_log2_self (n := count - 1)
    rw [binaryDigits]
    omega

/-- All trees over the same words have the same summary, whichever branches they keep. -/
theorem summary_eq_of_complete {words : List Word} {kept others : Nat → Prop}
    {tree published : DatasetTree} (complete : Complete words kept tree)
    (other : Complete words others published) : published.summary = tree.summary := by
  have roots := other.root.symm.trans complete.root
  rw [List.cons.injEq] at roots
  rw [summary, summary, roots.1, other.leafCount, complete.leafCount]

/-- For every dataset with a word and every list of lookups in it, the tree can be made, and the integers
of the words and of their branches show the words against the summary that was published. A dataset of
several words is as deep as its summary says. -/
theorem opensAll_of_words {words : List Word} {positions : List Nat} (nonempty : 0 < words.length)
    (inside : ∀ position ∈ positions, position < words.length) :
    ∃ (tree : DatasetTree) (looked : List Word) (elements : List BranchElement),
      Tree.ofElements positions words = .ok tree ∧
      (words.length < DatasetReader.wordLimit → ∀ magic : FixedBytes 8,
        ofContent positions (magic.toList ++ Word.concat words) = .ok tree) ∧
      tree.words = .ok looked ∧ tree.branchElements = .ok elements ∧
      ∀ (others : List Nat) (published : DatasetTree),
        Tree.ofElements others words = .ok published →
        published.summary.OpensAll words positions tree.depth (looked.flatMap Word.integers)
          (elements.map FixedBytes.toNat) ∧
        (2 ≤ words.length → published.summary.branchDepth = tree.depth) := by
  obtain ⟨tree, built, registered, complete⟩ :=
    ofElements_eq_ok (ν := DatasetNode) nonempty positions
  obtain ⟨branches, found, isBranch⟩ := complete.registeredBranches (by
    intro position member
    rw [registered] at member
    exact ⟨inside position member, inside position member, member⟩)
  rw [registered, ← complete.depth] at isBranch
  refine ⟨tree, _, _, built, ?_, by rw [DatasetTree.words, found]; rfl,
    by rw [branchElements, found]; rfl, ?_⟩
  · intro few magic
    rw [ofContent_words positions magic few, built]
  · intro others published publishedBuilt
    obtain ⟨same, sameBuilt, _, otherComplete⟩ :=
      ofElements_eq_ok (ν := DatasetNode) nonempty others
    rw [publishedBuilt, Except.ok.injEq] at sameBuilt
    subst sameBuilt
    rw [summary_eq_of_complete complete otherComplete]
    refine ⟨opensAll_of_complete complete isBranch, fun several => ?_⟩
    rw [summary, complete.leafCount, complete.depth]
    exact binaryDigits_pred several

/-- A dataset of three words. -/
def threeWords : List Word := [.replicate 128 1, .replicate 128 2, .replicate 128 3]

/-- Three words, of which the last one is looked up twice. -/
theorem opensAll_of_three_words :
    ∃ (tree : DatasetTree) (looked : List Word) (elements : List BranchElement),
      Tree.ofElements [2, 0, 2] threeWords = .ok tree ∧
      (threeWords.length < DatasetReader.wordLimit → ∀ magic : FixedBytes 8,
        ofContent [2, 0, 2] (magic.toList ++ Word.concat threeWords) = .ok tree) ∧
      tree.words = .ok looked ∧ tree.branchElements = .ok elements ∧
      ∀ (others : List Nat) (published : DatasetTree),
        Tree.ofElements others threeWords = .ok published →
        published.summary.OpensAll threeWords [2, 0, 2] tree.depth (looked.flatMap Word.integers)
          (elements.map FixedBytes.toNat) ∧
        (2 ≤ threeWords.length → published.summary.branchDepth = tree.depth) :=
  opensAll_of_words (by decide) (by decide)

end DatasetTree

end MiningPool
