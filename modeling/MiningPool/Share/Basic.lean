/-
Module: MiningPool.Share.Basic
Purpose: solutions handed in by miners.
Main exports: Share, Share.counter, SolutionState
-/
import MiningPool.Block.Header
import MiningPool.Merkle.NodeHash
import MiningPool.Number.Power

/-!
A share is a nonce for a block header, together with the difficulty that it was asked to meet. Shares are
ordered by their counter, which puts the timestamp of the header in front of the nonce.
-/

namespace MiningPool

/-- What a solution is worth. -/
inductive SolutionState where
  | invalid
  /-- Good enough for the pool. -/
  | validShare
  /-- Good enough for the chain. -/
  | fullBlock
deriving Repr, DecidableEq

namespace SolutionState

def name : SolutionState → String
  | invalid => "invalid"
  | validShare => "valid-share"
  | fullBlock => "full-block"

def code : SolutionState → Nat
  | invalid => 0
  | validShare => 1
  | fullBlock => 2

/-- The state of a name. -/
def named? (text : String) : Option SolutionState :=
  [invalid, validShare, fullBlock].find? (·.name = text)

end SolutionState

/-- A solution handed in by a miner. -/
structure Share where
  header : BlockHeader
  nonce : BlockNonce
  mixDigest : Hash256
  /-- The difficulty that the pool asked for. -/
  difficulty : Nat
  state : SolutionState
deriving DecidableEq

namespace Share

/-- A solution that nobody has looked at counts as invalid. -/
def unclassified (header : BlockHeader) (difficulty : Nat) (nonce : BlockNonce) (mixDigest : Hash256) :
    Share :=
  ⟨header, nonce, mixDigest, difficulty, .invalid⟩

/-- The key that shares are ordered by. -/
def counter (share : Share) : Nat := share.header.timestamp.toNat * 2 ^ (64 : Nat) + share.nonce.toNat

/-- The truncated hash of the encoded header. -/
def hash (share : Share) : NodeHash := truncatedKeccak share.header.encode

end Share

end MiningPool
