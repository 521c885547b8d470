/-
Module: MiningPool.Proofs.Dataset.Reader
Purpose: words back to back, and what a reader takes of them.
Main exports: Word.concat, Word.exists_concat_append, Word.concat_append_injective,
  DatasetReader.takeWords_words, DatasetReader.takeWords_tooMany
-/
import MiningPool.Dataset.Reader
import MiningPool.Proofs.Merkle.Elements

/-!
Bytes of any number are words back to back and the beginning of a further word. A reader that is past the
magic number puts exactly these words into the tree, in their order, and is left with the bytes behind
them. The word with the last position that 32 bits can name stops it.
-/

namespace MiningPool

/-- Words back to back. -/
def Word.concat (words : List Word) : List UInt8 := words.flatMap FixedBytes.toList

theorem length_flatMap_of_forall {α β : Type} {width : Nat} {f : α → List β} {items : List α}
    (each : ∀ item ∈ items, (f item).length = width) :
    (items.flatMap f).length = width * items.length := by
  induction items with
  | nil => rfl
  | cons item items ih =>
      rw [List.flatMap_cons, List.length_append, each item List.mem_cons_self,
        ih fun _ member => each _ (.tail _ member), List.length_cons, Nat.mul_succ, Nat.add_comm]

theorem Word.concat_cons_append (word : Word) (words : List Word) (tail : List UInt8) :
    concat (word :: words) ++ tail = word.toList ++ (concat words ++ tail) := by
  rw [concat, List.flatMap_cons, List.append_assoc, ← concat]

theorem Word.length_concat (words : List Word) : (concat words).length = 128 * words.length :=
  length_flatMap_of_forall fun word _ => word.length_toList

/-- Bytes that are long enough begin with a string of any length. -/
theorem FixedBytes.exists_append {n : Nat} {bytes : List UInt8} (long : n ≤ bytes.length) :
    ∃ (first : FixedBytes n) (rest : List UInt8), bytes = first.toList ++ rest := by
  have length : (bytes.take n).length = n := by
    rw [List.length_take]
    exact Nat.min_eq_left long
  exact ⟨⟨bytes.take n, length⟩, bytes.drop n, (List.take_append_drop n bytes).symm⟩

/-- Bytes that are long enough begin with any number of words. -/
theorem Word.exists_concat_append (count : Nat) {bytes : List UInt8}
    (long : 128 * count ≤ bytes.length) :
    ∃ (words : List Word) (tail : List UInt8), words.length = count ∧ bytes = concat words ++ tail := by
  induction count generalizing bytes with
  | zero => exact ⟨[], bytes, rfl, rfl⟩
  | succ count ih =>
      rw [Nat.mul_succ] at long
      obtain ⟨word, rest, rfl⟩ :=
        FixedBytes.exists_append (Nat.le_trans (Nat.le_add_left 128 (128 * count)) long)
      rw [List.length_append, word.length_toList, Nat.add_comm] at long
      obtain ⟨words, tail, number, rfl⟩ := ih (Nat.le_of_add_le_add_left long)
      refine ⟨word :: words, tail, by simp [number], ?_⟩
      rw [concat_cons_append]

/-- Words can be told from their bytes, less than a word behind them apart. -/
theorem Word.concat_append_injective {left right : List Word} {tail tail' : List UInt8}
    (cut : tail.length < 128) (cut' : tail'.length < 128)
    (same : concat left ++ tail = concat right ++ tail') : left = right ∧ tail = tail' := by
  have count : left.length = right.length := by
    have lengths := congrArg List.length same
    rw [List.length_append, List.length_append, length_concat, length_concat] at lengths
    omega
  induction left generalizing right with
  | nil =>
      cases right with
      | nil => exact ⟨rfl, same⟩
      | cons _ _ => cases count
  | cons word left ih =>
      cases right with
      | nil => cases count
      | cons other right =>
          rw [concat_cons_append, concat_cons_append] at same
          obtain ⟨here, behind⟩ :=
            List.append_inj same (word.length_toList.trans other.length_toList.symm)
          obtain ⟨rfl, rfl⟩ := ih behind (Nat.succ.inj count)
          exact ⟨congrArg (· :: left) (FixedBytes.toList_injective here), rfl⟩

namespace DatasetReader

variable {reader : DatasetReader}

/-- A word is put at the next position, unless there are too many. -/
theorem insertWord_eq {word : Word} {larger : DatasetBuilder}
    (inserted : reader.tree.insert word reader.words = (larger, .ok ()))
    (few : reader.words + 1 < wordLimit) :
    reader.insertWord word = ({ reader with tree := larger, words := reader.words + 1 }, none) := by
  rw [insertWord, inserted]
  simp only
  rw [if_neg (Nat.ne_of_lt few)]

/-- Words that are complete are all taken, and what follows them is kept. -/
theorem takeWords_words {words : List Word} {full : DatasetBuilder}
    (inserted : reader.tree.insertFrom reader.words words = .ok full)
    (few : reader.words + words.length < wordLimit) (tail : List UInt8) :
    reader.takeWords words.length (Word.concat words ++ tail) =
      ({ reader with tree := full, words := reader.words + words.length, pending := tail }, none) := by
  induction words generalizing reader with
  | nil =>
      cases inserted
      rfl
  | cons word words ih =>
      rw [List.length_cons] at few
      rcases taken : reader.tree.insert word reader.words with ⟨larger, error | _⟩
      · rw [TreeBuilder.insertFrom, taken] at inserted
        cases inserted
      · rw [TreeBuilder.insertFrom_cons taken] at inserted
        rw [List.length_cons, takeWords, Word.concat_cons_append, List.take_left' word.length_toList,
          FixedBytes.ofList?_toList, List.drop_left' word.length_toList]
        simp only
        rw [insertWord_eq taken (by omega)]
        simp only
        rw [ih inserted (by simp only; omega)]
        simp only [Nat.add_comm words.length 1, Nat.add_assoc]

/-- One word too many stops the reading, whatever follows. -/
theorem takeWords_tooMany {words : List Word} (next : reader.tree.inserted = reader.words)
    (nonempty : 0 < words.length) (many : reader.words + words.length = wordLimit) {limit : Nat}
    (enough : words.length ≤ limit) (tail : List UInt8) :
    (reader.takeWords limit (Word.concat words ++ tail)).2 = some (.dataset .tooManyWords) := by
  induction words generalizing reader limit with
  | nil => cases nonempty
  | cons word words ih =>
      rw [List.length_cons] at many enough
      obtain ⟨limit, rfl⟩ := Nat.exists_eq_add_of_lt enough
      obtain ⟨larger, inserted, count⟩ := TreeBuilder.exists_insert_eq next word
      rw [takeWords, Word.concat_cons_append, List.take_left' word.length_toList,
        FixedBytes.ofList?_toList, List.drop_left' word.length_toList]
      simp only
      cases words with
      | nil =>
          have full : reader.words + 1 = wordLimit := many
          rw [insertWord, inserted]
          simp only [if_pos full]
      | cons second words =>
          rw [List.length_cons] at many
          rw [insertWord_eq inserted (by omega)]
          simp only
          apply ih count (Nat.zero_lt_succ _)
          · simp only [List.length_cons]
            omega
          · omega

end DatasetReader

end MiningPool
