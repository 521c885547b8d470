/-
Module: MiningPool.Work.Pool
Purpose: the work handed to miners and how long it can be claimed.
Main exports: shareTarget, Work, WorkPool
-/
import MiningPool.Block.Header
import MiningPool.Error
import MiningPool.Number.Power

/-!
A solution meets a difficulty if its hash, read as an integer, does not exceed the target of the
difficulty: twice the quotient of 2²⁵⁵ and the difficulty, or all ones if that has more than 256 binary
digits.

The pool holds at most one work for every hash that miners work on. Works that are more than eight blocks
behind a new one are forgotten when it arrives.
-/

namespace MiningPool

/-- The greatest hash that meets a difficulty. -/
def shareTarget (difficulty : Nat) : Except Error Hash256 :=
  if difficulty = 0 then .error (.params .zeroDifficulty)
  else
    let target := 2 ^ (255 : Nat) / difficulty * 2
    if target < 2 ^ (256 : Nat) then .ok (natPad32 target) else .ok (FixedBytes.replicate 32 0xff)

/-- A block template of the node. -/
structure BlockTemplate where
  header : BlockHeader
  powHash : Hash256
  seedHash : Hash256
deriving DecidableEq

/-- A block template with the difficulty that the pool asks for. -/
structure Work where
  header : BlockHeader
  powHash : Hash256
  seedHash : Hash256
  shareDifficulty : Nat
  shareTarget : Hash256
deriving DecidableEq

namespace Work

/-- Attaches a share difficulty to a template. -/
def ofTemplate (template : BlockTemplate) (shareDifficulty : Nat) : Except Error Work := do
  let target ← MiningPool.shareTarget shareDifficulty
  .ok ⟨template.header, template.powHash, template.seedHash, shareDifficulty, target⟩

/-- The number of the block. -/
def number (work : Work) : Nat := work.header.number.toNat

/-- What a miner is given. -/
def package (work : Work) : List Hash256 := [work.powHash, work.seedHash, work.shareTarget]

end Work

/-- The works that can be claimed, one for each hash that miners work on. -/
structure WorkPool where
  works : List Work
deriving DecidableEq

namespace WorkPool

/-- How many blocks a work may fall behind a new one. -/
def retention : Nat := 8

def empty : WorkPool := ⟨[]⟩

def size (pool : WorkPool) : Nat := pool.works.length

/-- The work for a hash. -/
def get? (pool : WorkPool) (powHash : Hash256) : Option Work :=
  pool.works.find? (·.powHash = powHash)

/-- Forgets the work for a hash. -/
def erase (pool : WorkPool) (powHash : Hash256) : WorkPool :=
  ⟨pool.works.filter (·.powHash ≠ powHash)⟩

/-- Forgets the works that are too far behind a block. -/
def prune (pool : WorkPool) (number : Nat) : WorkPool :=
  ⟨pool.works.filter fun work => number - retention ≤ work.number⟩

/-- Adds a work in place of one for the same hash, after forgetting those too far behind it. -/
def insert (pool : WorkPool) (work : Work) : WorkPool :=
  ⟨work :: ((pool.prune work.number).erase work.powHash).works⟩

end WorkPool

end MiningPool
