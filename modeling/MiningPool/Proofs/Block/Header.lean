/-
Module: MiningPool.Proofs.Block.Header
Purpose: a header can be told from its encoding.
Main exports: BlockHeader.Encodable, BlockHeader.decode?_encode, BlockHeader.encode_injective,
  BlockHeader.ofFields?, BlockHeader.exists_fields_of_encode
-/
import Mathlib.Data.List.Basic
import MiningPool.Block.Header
import MiningPool.Proofs.Rlp

/-!
The encoding of a header is decoded to thirteen byte strings. The hashes, the address, the bloom and the
extra data are fields as they stand; the others are integers, which a reader accepts in their shortest
spelling only. What it reads is the header, so that no two headers have one encoding.
-/

namespace MiningPool

/-! ### Shortest spellings -/

/-- The digits spell the integer and are as few as possible. -/
structure Shortest (n : Nat) (digits : List UInt8) : Prop where
  reads : natBE digits = n
  noZero : digits.head? ≠ some 0
  nil : digits = [] ↔ n = 0

theorem minimalBE_eq_nil {n : Nat} : minimalBE n = [] ↔ n = 0 := by
  rw [minimalBE]
  split
  · simp_all
  · simp_all

theorem head?_minimalBE (n : Nat) : (minimalBE n).head? ≠ some 0 := by
  induction n using Nat.strongRecOn with
  | ind n ih =>
      rw [minimalBE]
      split
      · simp
      · rename_i positive
        rw [List.head?_append]
        by_cases single : n / 256 = 0
        · -- the last digit is the first one, and it is all of `n`
          have zero : minimalBE (n / 256) = [] := minimalBE_eq_nil.2 single
          have digit : n % 256 = n := by omega
          intro first
          rw [zero, List.head?_nil, Option.none_or, List.head?_cons, Option.some.injEq, digit] at first
          have reads := congrArg UInt8.toNat first
          rw [UInt8.toNat_ofNat_of_lt' (by simp [UInt8.size]; omega)] at reads
          exact positive reads
        · cases higher : (minimalBE (n / 256)).head? with
          | none => exact absurd (minimalBE_eq_nil.1 (List.head?_eq_none_iff.1 higher)) single
          | some first =>
              rw [Option.some_or, ← higher]
              exact ih (n / 256) (by omega)

theorem shortest_minimalBE (n : Nat) : Shortest n (minimalBE n) where
  reads := natBE_minimalBE n
  noZero := head?_minimalBE n
  nil := minimalBE_eq_nil

/-- The integer that the digits spell, none of which may be left out. -/
def integer? (digits : List UInt8) : Option Nat :=
  if digits.head? = some 0 then none else some (natBE digits)

/-- An integer of 64 bits. -/
def word? (digits : List UInt8) : Option UInt64 :=
  (integer? digits).bind fun n => if n < UInt64.size then some (.ofNat n) else none

@[simp] theorem integer?_minimalBE (n : Nat) : integer? (minimalBE n) = some n := by
  rw [integer?, if_neg (head?_minimalBE n), natBE_minimalBE]

@[simp] theorem word?_minimalBE (word : UInt64) : word? (minimalBE word.toNat) = some word := by
  rw [word?, integer?_minimalBE, Option.bind_some, if_pos word.toNat_lt, UInt64.ofNat_toNat]

/-! ### Headers -/

namespace BlockHeader

variable {header : BlockHeader}

/-- Encodings of at least 2⁶⁴ bytes have no head, and no machine with 64-bit addresses holds one. -/
def Encodable (header : BlockHeader) : Prop := header.encode.length < 2 ^ (64 : Nat)

theorem decode?_encode (encodable : header.Encodable) :
    Rlp.decode? header.encode = some (.list (header.fields.map .bytes), []) :=
  Rlp.decode?_encode_list encodable

/-- Reads a header from its fields. -/
def ofFields? : List (List UInt8) → Option BlockHeader
  | [parentHash, uncleHash, coinbase, stateRoot, transactionRoot, receiptRoot, bloom, difficulty, number,
      gasLimit, gasUsed, timestamp, extraData] => do
    return {
      parentHash := ← FixedBytes.ofList? 32 parentHash
      uncleHash := ← FixedBytes.ofList? 32 uncleHash
      coinbase := ← FixedBytes.ofList? 20 coinbase
      stateRoot := ← FixedBytes.ofList? 32 stateRoot
      transactionRoot := ← FixedBytes.ofList? 32 transactionRoot
      receiptRoot := ← FixedBytes.ofList? 32 receiptRoot
      bloom := ← FixedBytes.ofList? 256 bloom
      difficulty := ← integer? difficulty
      number := ← word? number
      gasLimit := ← word? gasLimit
      gasUsed := ← word? gasUsed
      timestamp := ← word? timestamp
      extraData }
  | _ => none

theorem ofFields?_fields (header : BlockHeader) : ofFields? header.fields = some header := by
  simp [ofFields?, fields]

theorem fields_injective {left right : BlockHeader} (same : left.fields = right.fields) :
    left = right := by
  have read := ofFields?_fields left
  rw [same, ofFields?_fields, Option.some.injEq] at read
  exact read.symm

theorem encode_injective {left right : BlockHeader} (leftEncodable : left.Encodable)
    (rightEncodable : right.Encodable) (same : left.encode = right.encode) : left = right := by
  have decoded := decode?_encode leftEncodable
  rw [same, decode?_encode rightEncodable] at decoded
  simp only [Option.some.injEq, Prod.mk.injEq, Rlp.Item.list.injEq, and_true] at decoded
  apply fields_injective
  exact List.map_injective_iff.2 (fun _ _ => Rlp.Item.bytes.inj) decoded.symm

/-- The places of the integers among the fields, and what they are. -/
def integers (header : BlockHeader) : List (Nat × Nat) :=
  [(7, header.difficulty), (8, header.number.toNat), (9, header.gasLimit.toNat),
    (10, header.gasUsed.toNat), (11, header.timestamp.toNat)]

theorem getElem?_fields_of_integers {place value : Nat} (member : (place, value) ∈ header.integers) :
    header.fields[place]? = some (minimalBE value) := by
  simp only [integers, List.mem_cons, Prod.mk.injEq, List.not_mem_nil, or_false] at member
  rcases member with ⟨rfl, rfl⟩ | ⟨rfl, rfl⟩ | ⟨rfl, rfl⟩ | ⟨rfl, rfl⟩ | ⟨rfl, rfl⟩ <;> rfl

/-- The encoding of a header is one list of thirteen byte strings with nothing behind it. The header can be
read from them, their integers are spelled as short as possible, and no other header has the encoding. -/
theorem exists_fields_of_encode (encodable : header.Encodable) :
    ∃ fields : List (List UInt8),
      Rlp.decode? header.encode = some (.list (fields.map .bytes), []) ∧ fields.length = 13 ∧
      ofFields? fields = some header ∧
      (∀ place value, (place, value) ∈ header.integers →
        ∃ digits, fields[place]? = some digits ∧ Shortest value digits) ∧
      ∀ other : BlockHeader, other.encode = header.encode → other = header := by
  refine ⟨header.fields, decode?_encode encodable, rfl, ofFields?_fields header, ?_, ?_⟩
  · intro place value member
    exact ⟨minimalBE value, getElem?_fields_of_integers member, shortest_minimalBE value⟩
  · intro other same
    have otherEncodable : other.Encodable := by
      rw [Encodable, same]
      exact encodable
    exact encode_injective otherEncodable encodable same

/-- A header with a difficulty of 56 bytes, a number of one low byte, extra data of one high byte, and zeros. -/
def mixedHeader : BlockHeader :=
  ⟨.zero 32, .replicate 32 1, .zero 20, .zero 32, .zero 32, .zero 32, .zero 256, 256 ^ (55 : Nat), 127, 128,
    0, 0, [0x80]⟩

/-- A header whose fields have heads of all kinds. -/
theorem exists_fields_of_encode_mixed :
    mixedHeader.Encodable ∧
      ∃ fields : List (List UInt8),
        Rlp.decode? mixedHeader.encode = some (.list (fields.map .bytes), []) ∧ fields.length = 13 ∧
        ofFields? fields = some mixedHeader ∧
        (∀ place value, (place, value) ∈ mixedHeader.integers →
          ∃ digits, fields[place]? = some digits ∧ Shortest value digits) ∧
        ∀ other : BlockHeader, other.encode = mixedHeader.encode → other = mixedHeader := by
  have encodable : mixedHeader.Encodable := by
    unfold Encodable
    decide +kernel
  exact ⟨encodable, exists_fields_of_encode encodable⟩

end BlockHeader

end MiningPool
