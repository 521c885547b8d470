/-
Module: MiningPool.Dataset.Word
Purpose: the words of a proof-of-work dataset.
Main exports: Word, Word.conventional, Word.integers
-/
import MiningPool.Block.Value

/-!
A dataset stores each quarter of a word with its lowest byte first. Verifiers take the quarters as
256-bit integers and hash them with the highest byte first.
-/

namespace MiningPool

/-- A unit of 128 bytes of a dataset. -/
abbrev Word := FixedBytes 128

namespace Word

/-- The four quarters of 32 bytes. -/
def quarters (word : Word) : List (List UInt8) :=
  (List.range 4).map fun i => (word.toList.drop (32 * i)).take 32

/-- The integers that a verifier reads out of the word. -/
def integers (word : Word) : List Nat := word.quarters.map natLE

/-- The bytes with every quarter reversed. -/
def conventional (word : Word) : List UInt8 := word.quarters.flatMap List.reverse

end Word

end MiningPool
