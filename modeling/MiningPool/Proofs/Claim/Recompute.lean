/-
Module: MiningPool.Proofs.Claim.Recompute
Purpose: what a verifier makes of the fields of a proof.
Main exports: VerificationProof.recomputed?, VerificationProof.Opens, ShareTree.climbFrom_authPath
-/
import MiningPool.Claim.Proof
import MiningPool.Proofs.BigEndian
import MiningPool.Proofs.Share.RangeOrder

/-!
A verifier has the fields of a proof and nothing else. It reads the counter of the share from the encoded
header and the nonce and climbs from there: on every level it is given one counter and one hash, and the
binary digit of the position tells on which side they stand. On a tree in counter order the climb passes
through the nodes above the share.
-/

namespace MiningPool

namespace VerificationProof

/-- The time stamp in the encoded header, its twelfth field. -/
def timestamp? (proof : VerificationProof) : Option Nat :=
  match Rlp.decode? proof.encodedHeader with
  | some (.list items, []) =>
    match (items[11]? : Option Rlp.Item) with
    | some (.bytes value) => some (natBE value)
    | _ => none
  | _ => none

/-- The node that the climb starts from. -/
def start? (proof : VerificationProof) : Option RangeNode :=
  proof.timestamp?.map fun timestamp =>
    let counter := timestamp * 2 ^ (64 : Nat) + proof.nonce
    ⟨counter, counter, truncatedKeccak proof.encodedHeader⟩

/-- One level up, from a node on the right if `odd`, with the counter and the hash of that level. -/
def climb (odd : Bool) (node : RangeNode) (counter hash : Nat) : RangeNode :=
  if odd then
    ⟨counter, node.max, truncatedKeccak ((natPad32 counter).toList ++ (natPad32 hash).toList ++
      ((natPad32 node.max).toList ++ node.hash.pad.toList))⟩
  else
    ⟨node.min, counter, truncatedKeccak ((natPad32 node.min).toList ++ node.hash.pad.toList ++
      ((natPad32 counter).toList ++ (natPad32 hash).toList))⟩

/-- The climb from a level on, as far as there are counters and hashes. -/
def climbFrom (position : Nat) : Nat → RangeNode → List Nat → List Nat → RangeNode
  | height, node, counter :: counters, hash :: hashes =>
    climbFrom position (height + 1) (climb (position.testBit height) node counter hash)
      counters hashes
  | _, node, _, _ => node

/-- The node that the climb ends in. -/
def recomputed? (proof : VerificationProof) : Option RangeNode :=
  proof.start?.map fun node =>
    climbFrom proof.shareIndex 0 node proof.counterBranch proof.hashBranch

/-- The proof shows one share of the claim with this summary. -/
structure Opens (proof : VerificationProof) (summary : ClaimSummary) : Prop where
  recomputed : proof.recomputed? =
    some ⟨summary.minCounter, summary.maxCounter, summary.rootHash⟩
  length_counters : proof.counterBranch.length = Nat.clog 2 summary.numShares
  length_hashes : proof.hashBranch.length = Nat.clog 2 summary.numShares
  inside : proof.shareIndex < summary.numShares

/-! ### One level of the climb -/

theorem climb_true (own sibling : RangeNode) :
    climb true own sibling.min sibling.hash.pad.toNat =
      ⟨sibling.min, own.max, truncatedKeccak (RangeNode.hashInput sibling own)⟩ := by
  simp only [climb, natPad32_toNat, RangeNode.hashInput, if_true]

theorem climb_false (own sibling : RangeNode) :
    climb false own sibling.max sibling.hash.pad.toNat =
      ⟨own.min, sibling.max, truncatedKeccak (RangeNode.hashInput own sibling)⟩ := by
  simp only [climb, natPad32_toNat, RangeNode.hashInput, Bool.false_eq_true, if_false]

/-- The highest level comes last. -/
theorem climbFrom_concat (position height : Nat) (node : RangeNode) {counters hashes : List Nat}
    (lengths : counters.length = hashes.length) (counter hash : Nat) :
    climbFrom position height node (counters ++ [counter]) (hashes ++ [hash]) =
      climb (position.testBit (height + counters.length))
        (climbFrom position height node counters hashes) counter hash := by
  induction counters generalizing height node hashes with
  | nil =>
      rw [List.length_nil] at lengths
      rw [List.length_eq_zero_iff.1 lengths.symm]
      rfl
  | cons first counters ih =>
      cases hashes with
      | nil => simp at lengths
      | cons firstHash hashes =>
          simp only [List.cons_append, climbFrom, List.length_cons]
          rw [ih _ _ (by simpa using lengths), Nat.add_right_comm height 1, Nat.add_assoc]

end VerificationProof

namespace ShareTree

open Merkle VerificationProof

theorem countersFrom_concat (position : Nat) (siblings : List (Sibling RangeNode))
    (last : Sibling RangeNode) :
    countersFrom position (siblings ++ [last]) =
      countersFrom position siblings ++
        [natPad32 (if position / 2 ^ siblings.length % 2 = 0 then last.node.max
          else last.node.min)] := by
  induction siblings generalizing position with
  | nil => simp [countersFrom]
  | cons first siblings ih =>
      simp only [List.cons_append, countersFrom, List.length_cons, ih, Nat.pow_succ',
        Nat.div_div_eq_div_mul]

theorem length_countersFrom (position : Nat) (siblings : List (Sibling RangeNode)) :
    (countersFrom position siblings).length = siblings.length := by
  induction siblings generalizing position with
  | nil => rfl
  | cons first siblings ih => simp [countersFrom, ih]

/-- The counters beside a path as a proof holds them. -/
def pathCounters (position : Nat) (path : Path RangeNode) : List Nat :=
  (countersFrom position path.siblings).map FixedBytes.toNat

/-- The hashes beside a path as a proof holds them. -/
def pathHashes (path : Path RangeNode) : List Nat :=
  (path.siblings.map (·.node.hash.pad)).map FixedBytes.toNat

theorem length_pathCounters (position : Nat) (path : Path RangeNode) :
    (pathCounters position path).length = path.siblings.length := by
  simp [pathCounters, length_countersFrom]

theorem length_pathHashes (path : Path RangeNode) :
    (pathHashes path).length = path.siblings.length := by
  simp [pathHashes]

/-- The climb with the counters and hashes beside a path passes through the nodes above its position. -/
theorem climbFrom_authPath {nodes : List RangeNode} (ordered : RangeNode.Ordered nodes)
    (bounded : RangeNode.Bounded nodes) {position height : Nat} {path : Path RangeNode}
    {own : RangeNode} (bottom : nodes[position]? = some own)
    (authPath : AuthPath nodes position height path) :
    (level nodes height)[position / 2 ^ height]? =
      some (climbFrom position 0 own (pathCounters position path) (pathHashes path)) := by
  induction authPath with
  | leaf => simpa [pathCounters, pathHashes, Path.siblings, countersFrom, climbFrom] using bottom
  | @afterNode height sibling below lower odd neighbour ih =>
      have lengths : (pathCounters position below).length = (pathHashes below).length := by
        rw [length_pathCounters, length_pathHashes]
      have fits := bounded.level height sibling (RangeNode.mem_of_beside neighbour)
      have counters : pathCounters position (.afterNode sibling below) =
          pathCounters position below ++ [sibling.min] := by
        simp [pathCounters, Path.siblings, countersFrom_concat, lower.length_siblings, odd,
          toNat_natPad32 fits.1]
      have hashes : pathHashes (.afterNode sibling below) =
          pathHashes below ++ [sibling.hash.pad.toNat] := by
        simp [pathHashes, Path.siblings]
      rw [counters, hashes, climbFrom_concat _ _ _ lengths, length_pathCounters,
        lower.length_siblings, Nat.zero_add, testBit_of_mod odd, climb_true, level_succ,
        div_pow_succ, getElem?_pairUp_beside ih neighbour, if_pos odd]
      exact congrArg some ((ordered.level height).join_of_odd odd ih neighbour)
  | @beforeNode height sibling below lower even neighbour ih =>
      have lengths : (pathCounters position below).length = (pathHashes below).length := by
        rw [length_pathCounters, length_pathHashes]
      have fits := bounded.level height sibling (RangeNode.mem_of_beside neighbour)
      have counters : pathCounters position (.beforeNode below sibling) =
          pathCounters position below ++ [sibling.max] := by
        simp [pathCounters, Path.siblings, countersFrom_concat, lower.length_siblings, even,
          toNat_natPad32 fits.2]
      have hashes : pathHashes (.beforeNode below sibling) =
          pathHashes below ++ [sibling.hash.pad.toNat] := by
        simp [pathHashes, Path.siblings]
      rw [counters, hashes, climbFrom_concat _ _ _ lengths, length_pathCounters,
        lower.length_siblings, Nat.zero_add, testBit_of_mod_zero even, climb_false, level_succ,
        div_pow_succ, getElem?_pairUp_beside ih neighbour, if_neg (by omega)]
      exact congrArg some ((ordered.level height).join_of_even even ih neighbour)

end ShareTree

end MiningPool
