/-
Module: MiningPool.Block.Header
Purpose: block headers as far as a solution commits to them.
Main exports: BlockHeader, BlockHeader.encode, BlockHeader.sealHash
-/
import MiningPool.Block.Value
import MiningPool.Keccak
import MiningPool.Rlp

/-!
A solution commits to the thirteen fields of a header other than the nonce and the mix digest. They are
encoded as one list of byte strings, in the order of the fields; the hash of the encoding is the seal
hash that a miner works on.
-/

namespace MiningPool

/-- The header fields that a solution commits to. -/
structure BlockHeader where
  parentHash : Hash256
  uncleHash : Hash256
  coinbase : Address
  stateRoot : Hash256
  transactionRoot : Hash256
  receiptRoot : Hash256
  bloom : Bloom
  difficulty : Nat
  number : UInt64
  gasLimit : UInt64
  gasUsed : UInt64
  timestamp : UInt64
  extraData : List UInt8
deriving DecidableEq

namespace BlockHeader

/-- The fields as byte strings, integers in their shortest form. -/
def fields (header : BlockHeader) : List (List UInt8) :=
  [header.parentHash.toList, header.uncleHash.toList, header.coinbase.toList,
    header.stateRoot.toList, header.transactionRoot.toList, header.receiptRoot.toList,
    header.bloom.toList, minimalBE header.difficulty, minimalBE header.number.toNat,
    minimalBE header.gasLimit.toNat, minimalBE header.gasUsed.toNat,
    minimalBE header.timestamp.toNat, header.extraData]

/-- The encoding of the header without nonce and mix digest. -/
def encode (header : BlockHeader) : List UInt8 :=
  (Rlp.Item.list (header.fields.map .bytes)).encode

/-- The hash that a miner works on. -/
def sealHash (header : BlockHeader) : Hash256 := keccak256 header.encode

end BlockHeader

/-- The number of blocks that share one dataset. -/
def epochLength : Nat := 30000

/-- The epoch of a block. -/
def epoch (number : Nat) : Nat := number / epochLength

end MiningPool
