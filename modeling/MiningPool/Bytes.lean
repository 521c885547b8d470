/-
Module: MiningPool.Bytes
Purpose: byte strings, byte strings of a fixed length, and the integers they spell.
Main exports: FixedBytes, natBE, natLE, minimalBE, pad32
-/

/-!
Byte strings are lists of bytes. A value whose length is part of its meaning (a hash, an address, a
dataset word) is a `FixedBytes n`, so that no function has to check a length twice.

Integers are read big-endian (`natBE`) or little-endian (`natLE`). `minimalBE` writes an integer with
no leading zero byte, and zero as the empty string; `pad32` brings any byte string to 32 bytes by
putting zeros in front, or by keeping only the last 32.
-/

namespace MiningPool

/-- A byte string of length `n`. -/
structure FixedBytes (n : Nat) where
  toList : List UInt8
  length_toList : toList.length = n
deriving DecidableEq

namespace FixedBytes

variable {n m : Nat}

theorem toList_injective {a b : FixedBytes n} (h : a.toList = b.toList) : a = b := by
  cases a; cases b; simp_all

@[ext] theorem ext {a b : FixedBytes n} (h : a.toList = b.toList) : a = b :=
  toList_injective h

/-- `n` times the same byte. -/
def replicate (n : Nat) (b : UInt8) : FixedBytes n :=
  ⟨List.replicate n b, by simp⟩

/-- All bytes zero. -/
def zero (n : Nat) : FixedBytes n := replicate n 0

instance : Inhabited (FixedBytes n) := ⟨zero n⟩

/-- A byte string that happens to have the right length. -/
def ofList? (n : Nat) (bytes : List UInt8) : Option (FixedBytes n) :=
  if h : bytes.length = n then some ⟨bytes, h⟩ else none

@[simp] theorem ofList?_toList (value : FixedBytes n) : ofList? n value.toList = some value :=
  dif_pos value.length_toList

/-- One byte string after another. -/
def append (a : FixedBytes n) (b : FixedBytes m) : FixedBytes (n + m) :=
  ⟨a.toList ++ b.toList, by simp [a.length_toList, b.length_toList]⟩

/-- The first `k` of `k + m` bytes. -/
def front (k : Nat) (a : FixedBytes (k + m)) : FixedBytes k :=
  ⟨a.toList.take k, by simp [a.length_toList]⟩

/-- What follows the first `k` of `k + m` bytes. -/
def back (k : Nat) (a : FixedBytes (k + m)) : FixedBytes m :=
  ⟨a.toList.drop k, by simp [a.length_toList]⟩

end FixedBytes

/-! ### Integers as bytes -/

/-- The integer that the bytes spell, most significant byte first. -/
def natBE (bytes : List UInt8) : Nat :=
  bytes.foldl (fun acc b => acc * 256 + b.toNat) 0

/-- The integer that the bytes spell, least significant byte first. -/
def natLE (bytes : List UInt8) : Nat :=
  bytes.foldr (fun b acc => acc * 256 + b.toNat) 0

/-- The shortest big-endian spelling of an integer; zero has no bytes. -/
def minimalBE (n : Nat) : List UInt8 :=
  if n = 0 then [] else minimalBE (n / 256) ++ [UInt8.ofNat (n % 256)]
termination_by n
decreasing_by omega

/-- The big-endian spelling of `n` modulo `256 ^ width` in exactly `width` bytes. -/
def fixedBE (width n : Nat) : List UInt8 :=
  match width with
  | 0 => []
  | w + 1 => fixedBE w (n / 256) ++ [UInt8.ofNat (n % 256)]

theorem length_fixedBE (width n : Nat) : (fixedBE width n).length = width := by
  induction width generalizing n with
  | zero => rfl
  | succ w ih => simp [fixedBE, ih]

/-- The last 32 bytes, with zeros in front where there are fewer. -/
def pad32 (bytes : List UInt8) : FixedBytes 32 :=
  ⟨List.replicate (32 - bytes.length) 0 ++ bytes.drop (bytes.length - 32), by
    simp; omega⟩

/-- The last 32 bytes of an integer's big-endian spelling. -/
def natPad32 (n : Nat) : FixedBytes 32 := pad32 (minimalBE n)

end MiningPool
