/-
Module: MiningPool.Keccak
Purpose: the Keccak-256 hash of a byte string.
Main exports: keccak256
-/
import MiningPool.Bytes

/-!
The state of the permutation is five planes of five 64-bit lanes; lane `x` of plane `y` is the lane at
position `(x, y)`. A message is filled up to whole blocks of 136 bytes: a byte `0x01`, zeros, and the
top bit of the last byte (both marks share a byte if only one is left). Each block is added to the first
seventeen lanes, followed by twenty-four rounds; the digest is the first four lanes of the final state.
-/

namespace MiningPool

namespace Keccak

/-- Five lanes of 64 bits. -/
structure Plane where
  a : UInt64
  b : UInt64
  c : UInt64
  d : UInt64
  e : UInt64
deriving DecidableEq

namespace Plane

def zero : Plane := ⟨0, 0, 0, 0, 0⟩

/-- Lane-wise addition of bits. -/
def xor (p q : Plane) : Plane :=
  ⟨p.a ^^^ q.a, p.b ^^^ q.b, p.c ^^^ q.c, p.d ^^^ q.d, p.e ^^^ q.e⟩

/-- The bits of `q` that are not set in `p`. -/
def without (p q : Plane) : Plane :=
  ⟨~~~p.a &&& q.a, ~~~p.b &&& q.b, ~~~p.c &&& q.c, ~~~p.d &&& q.d, ~~~p.e &&& q.e⟩

/-- Position `x` takes the lane of position `x + 1`. -/
def next (p : Plane) : Plane := ⟨p.b, p.c, p.d, p.e, p.a⟩

/-- Position `x` takes the lane of position `x - 1`. -/
def previous (p : Plane) : Plane := ⟨p.e, p.a, p.b, p.c, p.d⟩

/-- A lane rotated to the left, for an amount below 64. -/
def rotateLane (lane amount : UInt64) : UInt64 :=
  if amount = 0 then lane else (lane <<< amount) ||| (lane >>> (64 - amount))

/-- Every lane rotated to the left by its own amount. -/
def rotate (p amounts : Plane) : Plane :=
  ⟨rotateLane p.a amounts.a, rotateLane p.b amounts.b, rotateLane p.c amounts.c,
    rotateLane p.d amounts.d, rotateLane p.e amounts.e⟩

end Plane

/-- The five planes of the permutation. -/
structure State where
  p : Plane
  q : Plane
  r : Plane
  s : Plane
  t : Plane
deriving DecidableEq

namespace State

def zero : State := ⟨.zero, .zero, .zero, .zero, .zero⟩

/-- Plane-wise addition of bits. -/
def xor (m n : State) : State :=
  ⟨m.p.xor n.p, m.q.xor n.q, m.r.xor n.r, m.s.xor n.s, m.t.xor n.t⟩

/-- Adds to every lane the parities of two neighbouring columns. -/
def mixColumns (m : State) : State :=
  let parity := ((m.p.xor m.q).xor (m.r.xor m.s)).xor m.t
  let d := parity.previous.xor (parity.next.rotate ⟨1, 1, 1, 1, 1⟩)
  m.xor ⟨d, d, d, d, d⟩

/-- Rotates every lane by the amount of its position. -/
def rotateLanes (m : State) : State :=
  ⟨m.p.rotate ⟨0, 1, 62, 28, 27⟩, m.q.rotate ⟨36, 44, 6, 55, 20⟩, m.r.rotate ⟨3, 10, 43, 25, 39⟩,
    m.s.rotate ⟨41, 45, 15, 21, 8⟩, m.t.rotate ⟨18, 2, 61, 56, 14⟩⟩

/-- Moves the lane at `(x + 3y, x)` to `(x, y)`. -/
def moveLanes (m : State) : State :=
  ⟨⟨m.p.a, m.q.b, m.r.c, m.s.d, m.t.e⟩, ⟨m.p.d, m.q.e, m.r.a, m.s.b, m.t.c⟩,
    ⟨m.p.b, m.q.c, m.r.d, m.s.e, m.t.a⟩, ⟨m.p.e, m.q.a, m.r.b, m.s.c, m.t.d⟩,
    ⟨m.p.c, m.q.d, m.r.e, m.s.a, m.t.b⟩⟩

/-- Adds to each lane the bits of the lane two further on that are not set in the one between. -/
def mixRows (m : State) : State :=
  let mix (p : Plane) : Plane := p.xor (p.next.without p.next.next)
  ⟨mix m.p, mix m.q, mix m.r, mix m.s, mix m.t⟩

/-- One round, told apart from the others by its constant. -/
def round (m : State) (constant : UInt64) : State :=
  let m := m.mixColumns.rotateLanes.moveLanes.mixRows
  { m with p := { m.p with a := m.p.a ^^^ constant } }

/-- The constants of the rounds. -/
def constants : List UInt64 :=
  [0x0000000000000001, 0x0000000000008082, 0x800000000000808a, 0x8000000080008000,
    0x000000000000808b, 0x0000000080000001, 0x8000000080008081, 0x8000000000008009,
    0x000000000000008a, 0x0000000000000088, 0x0000000080008009, 0x000000008000000a,
    0x000000008000808b, 0x800000000000008b, 0x8000000000008089, 0x8000000000008003,
    0x8000000000008002, 0x8000000000000080, 0x000000000000800a, 0x800000008000000a,
    0x8000000080008081, 0x8000000000008080, 0x0000000080000001, 0x8000000080008008]

/-- All rounds. -/
def permute (m : State) : State := constants.foldl round m

/-- The lanes of a list in order, and zero where it ends. -/
def ofLanes (lanes : List UInt64) : State :=
  let pick (i : Nat) : UInt64 := lanes.getD i 0
  let plane (i : Nat) : Plane := ⟨pick i, pick (i + 1), pick (i + 2), pick (i + 3), pick (i + 4)⟩
  ⟨plane 0, plane 5, plane 10, plane 15, plane 20⟩

end State

/-- The number of message bytes that one permutation takes in. -/
def blockLength : Nat := 136

/-- Eight bytes as a lane, the lowest first. -/
def lane (bytes : List UInt8) : UInt64 :=
  bytes.foldr (fun b acc => (acc <<< 8) ||| b.toUInt64) 0

/-- The bytes of a lane, the lowest first. -/
def laneBytes (lane : UInt64) : List UInt8 :=
  (List.range 8).map fun i => (lane >>> UInt64.ofNat (8 * i)).toUInt8

theorem length_laneBytes (lane : UInt64) : (laneBytes lane).length = 8 := by simp [laneBytes]

/-- The lanes of a whole number of eight-byte groups. -/
def lanes : List UInt8 → List UInt64
  | b₀ :: b₁ :: b₂ :: b₃ :: b₄ :: b₅ :: b₆ :: b₇ :: rest =>
    lane [b₀, b₁, b₂, b₃, b₄, b₅, b₆, b₇] :: lanes rest
  | _ => []

/-- What fills a message of length `n` up to whole blocks. -/
def filling (n : Nat) : List UInt8 :=
  let missing := blockLength - n % blockLength
  if missing = 1 then [0x81] else 0x01 :: List.replicate (missing - 2) 0 ++ [0x80]

/-- Takes in a number of blocks. -/
def absorb (state : State) : Nat → List UInt8 → State
  | 0, _ => state
  | blocks + 1, bytes =>
    absorb (state.xor (State.ofLanes (lanes (bytes.take blockLength)))).permute blocks
      (bytes.drop blockLength)

end Keccak

open Keccak in
/-- The Keccak-256 digest of a byte string. -/
def keccak256 (message : List UInt8) : FixedBytes 32 :=
  let filled := message ++ filling message.length
  let state := absorb .zero (filled.length / blockLength) filled
  ⟨laneBytes state.p.a ++ (laneBytes state.p.b ++ (laneBytes state.p.c ++ laneBytes state.p.d)), by
    simp [length_laneBytes]⟩

end MiningPool
