/-
Module: MiningPool.Merkle.NodeHash
Purpose: the truncated hashes of tree nodes and their packed form.
Main exports: NodeHash, truncatedKeccak, BranchElement
-/
import MiningPool.Block.Value
import MiningPool.Keccak

/-!
Tree nodes carry the last sixteen bytes of a hash. A verifier reads branches in units of 32 bytes, each of
which packs two node hashes.
-/

namespace MiningPool

/-- The hash of a tree node. -/
abbrev NodeHash := FixedBytes 16

/-- The last sixteen bytes of the hash of a byte string. -/
def truncatedKeccak (message : List UInt8) : NodeHash :=
  FixedBytes.back (m := 16) 16 (keccak256 message)

namespace NodeHash

/-- The hash behind sixteen zero bytes. -/
def pad (hash : NodeHash) : FixedBytes 32 := pad32 hash.toList

/-- The order of the hashes as big-endian integers. -/
def order (a b : NodeHash) : Ordering := compare a.toNat b.toNat

end NodeHash

/-- Two node hashes in one unit of a branch. -/
abbrev BranchElement := FixedBytes 32

namespace BranchElement

/-- One hash followed by another. -/
def pack (first second : NodeHash) : BranchElement := FixedBytes.append (m := 16) first second

/-- The hash in front. -/
def first (element : BranchElement) : NodeHash := FixedBytes.front (m := 16) 16 element

/-- The hash behind. -/
def second (element : BranchElement) : NodeHash := FixedBytes.back (m := 16) 16 element

end BranchElement

end MiningPool
