/-
Module: MiningPool.Proofs.Dataset.Flaws
Purpose: what can be wrong with the content of a dataset file.
Main exports: DatasetReader.WordCount, DatasetReader.BadLength, DatasetTree.ofContent_words,
  DatasetFlaw, DatasetTree.ofContent_cases
-/
import MiningPool.Proofs.Dataset.Stream

/-!
Bytes of any number are a magic number, words, and the beginning of a further word, unless there are not
even enough of them for the magic number. So it can be told from the content alone whether it is read, and
if it is not, with which fault.
-/

namespace MiningPool

/-! ### The number of bytes -/

namespace DatasetReader

/-- Bytes that are long enough are a magic number, words, and less than a word behind them. -/
theorem exists_words {bytes : List UInt8} (long : magicLength ≤ bytes.length) :
    ∃ (magic : FixedBytes 8) (words : List Word) (tail : List UInt8),
      bytes = magic.toList ++ (Word.concat words ++ tail) ∧
      words.length = (bytes.length - magicLength) / 128 ∧
      tail.length = (bytes.length - magicLength) % 128 := by
  obtain ⟨magic, rest, rfl⟩ := exists_magic long
  obtain ⟨words, tail, count, rfl⟩ :=
    Word.exists_concat_append (rest.length / 128) (Nat.mul_div_le rest.length 128)
  have length := length_dataset magic words tail
  rw [List.length_append, Word.length_concat] at count
  exact ⟨magic, words, tail, rfl, by omega, by omega⟩

/-- A magic number and as many words as can be told apart have this length. -/
structure WordCount (length count : Nat) : Prop where
  length : length = magicLength + 128 * count
  few : count < wordLimit

/-- What is wrong with any other length. -/
inductive BadLength : Nat → DatasetFault → Prop where
  | insideMagic {length : Nat} (short : length < magicLength) : BadLength length (.insideMagic length)
  | partialWord {length : Nat} (long : magicLength ≤ length) (few : length < byteLimit)
      (cut : (length - magicLength) % 128 ≠ 0) :
      BadLength length
        (.partialWord ((length - magicLength) % 128) ((length - magicLength) / 128))
  | tooManyWords {length : Nat} (many : byteLimit ≤ length) : BadLength length .tooManyWords

theorem wordCount_or_badLength (length : Nat) :
    (∃ count, WordCount length count) ∨ ∃ fault, BadLength length fault := by
  by_cases short : length < magicLength
  · exact .inr ⟨_, .insideMagic short⟩
  have long := Nat.le_of_not_lt short
  by_cases many : byteLimit ≤ length
  · exact .inr ⟨_, .tooManyWords many⟩
  have few := Nat.lt_of_not_le many
  by_cases cut : (length - magicLength) % 128 = 0
  · rw [byteLimit] at few
    exact .inl ⟨(length - magicLength) / 128, by omega, by omega⟩
  · exact .inr ⟨_, .partialWord long few cut⟩

/-- Content of a good length is a magic number and words. -/
theorem WordCount.exists_words {content : List UInt8} {count : Nat}
    (counted : WordCount content.length count) :
    ∃ (magic : FixedBytes 8) (words : List Word),
      words.length = count ∧ content = magic.toList ++ Word.concat words := by
  have length := counted.length
  have long : magicLength ≤ content.length := length ▸ Nat.le_add_right _ _
  obtain ⟨magic, words, tail, rfl, number, left⟩ := DatasetReader.exists_words long
  have nothing : tail = [] := List.length_eq_zero_iff.1 (by omega)
  exact ⟨magic, words, by omega, by rw [nothing, List.append_nil]⟩

end DatasetReader

/-! ### Flaws -/

open DatasetReader

/-- What is wrong with the content of a dataset file whose words at some positions are looked up, and the
error that tells it. -/
inductive DatasetFlaw (positions : List Nat) : List UInt8 → Error → Prop where
  /-- The content is shorter than the magic number. -/
  | insideMagic {content : List UInt8} (short : content.length < DatasetReader.magicLength) :
      DatasetFlaw positions content (.dataset (.insideMagic content.length))
  | partialWord {magic : FixedBytes 8} {words : List Word} {tail : List UInt8}
      (few : words.length < DatasetReader.wordLimit) (begun : tail ≠ []) (cut : tail.length < 128) :
      DatasetFlaw positions (magic.toList ++ (Word.concat words ++ tail))
        (.dataset (.partialWord tail.length words.length))
  | tooManyWords {magic : FixedBytes 8} {words : List Word} {tail : List UInt8}
      (many : words.length = DatasetReader.wordLimit) :
      DatasetFlaw positions (magic.toList ++ (Word.concat words ++ tail)) (.dataset .tooManyWords)
  | noWords {magic : FixedBytes 8} :
      DatasetFlaw positions (magic.toList ++ Word.concat []) (.tree .noLeaves)
  | noWord {magic : FixedBytes 8} {words : List Word} {position : Nat}
      (asked : position ∈ positions) (outside : words.length ≤ position) :
      DatasetFlaw positions (magic.toList ++ Word.concat words)
        (.tree (.noBranch position words.length))

/-- A bad length is a flaw. -/
theorem DatasetFlaw.of_badLength {positions : List Nat} {content : List UInt8} {fault : DatasetFault}
    (bad : BadLength content.length fault) : DatasetFlaw positions content (.dataset fault) := by
  generalize same : content.length = length at bad
  subst same
  cases bad with
  | insideMagic short => exact .insideMagic short
  | partialWord long few cut =>
      rw [byteLimit] at few
      obtain ⟨magic, words, tail, spelled, number, left⟩ := exists_words long
      rw [← left] at cut ⊢
      rw [← number, spelled]
      refine .partialWord (by omega) ?_ (by omega)
      rintro rfl
      exact cut rfl
  | tooManyWords many =>
      rw [byteLimit] at many
      obtain ⟨magic, rest, spelled⟩ := exists_magic ((Nat.le_add_right _ _).trans many)
      rw [spelled, List.length_append, magic.length_toList] at many
      obtain ⟨words, tail, number, rfl⟩ :=
        Word.exists_concat_append wordLimit (Nat.le_of_add_le_add_left many)
      rw [spelled]
      exact .tooManyWords number

namespace DatasetTree

variable {positions : List Nat} {content : List UInt8}

/-! ### Reading content -/

theorem ofContent_of_read_eq_error {error : Error}
    (failed : ((DatasetReader.start (TreeBuilder.empty.register positions)).read
      [.data content]).2 = .error error) : ofContent positions content = .error error := by
  rw [ofContent]
  simp only [failed, bind, Except.bind]

/-- Content of a bad length is refused for its length. -/
theorem ofContent_of_badLength {fault : DatasetFault}
    (bad : BadLength content.length fault) :
    ofContent positions content = .error (.dataset fault) := by
  apply ofContent_of_read_eq_error
  generalize same : content.length = length at bad
  cases bad with
  | insideMagic short =>
      subst same
      exact (exact_read_content (short.trans_le (Nat.le_add_right _ _))).insideMagic rfl short
  | partialWord long few cut =>
      subst same
      exact (exact_read_content few).partialWord rfl long cut
  | tooManyWords many =>
      apply read_eq_tooMany
      rw [delivered_content, same]
      exact many

/-- A complete dataset gives the tree over its words. -/
theorem ofContent_words (positions : List Nat) (magic : FixedBytes 8)
    {words : List Word} (few : words.length < DatasetReader.wordLimit) :
    ofContent positions (magic.toList ++ Word.concat words) = Tree.ofElements positions words := by
  have length : (magic.toList ++ Word.concat words).length = magicLength + 128 * words.length := by
    rw [← List.append_nil (Word.concat words), length_dataset]
    rfl
  have exact : Exact positions (magic.toList ++ Word.concat words) none _ :=
    exact_read_content (by rw [length, byteLimit]; omega)
  have whole := (exact.complete rfl words.length).2 length
  obtain ⟨others, tail, behind, cut, inserted⟩ := exact.words
  rw [drop_magic, ← List.append_nil (Word.concat words)] at behind
  obtain ⟨rfl, _⟩ := Word.concat_append_injective (by decide) cut behind
  rw [ofContent, Tree.ofElements, inserted]
  simp only [whole, bind, Except.bind]

/-- Some dataset can be read, whichever positions are registered. -/
theorem exists_ofContent_eq (positions : List Nat) :
    ∃ content dataset, ofContent positions content = .ok dataset ∧
      dataset.registered = positions := by
  have small : [(FixedBytes.zero 128 : Word)].length < DatasetReader.wordLimit := by decide
  have nonempty : 0 < [(FixedBytes.zero 128 : Word)].length := Nat.one_pos
  obtain ⟨dataset, built, registered, _⟩ :=
    Merkle.ofElements_eq_ok (ν := DatasetNode) nonempty positions
  exact ⟨_, dataset, (ofContent_words positions (.zero 8) small).trans built, registered⟩

/-- Content with words is read as the tree over them. -/
theorem exists_ofContent_of_wordCount {count : Nat} (counted : WordCount content.length count)
    (nonempty : 0 < count) (positions : List Nat) :
    ∃ (magic : FixedBytes 8) (words : List Word) (dataset : DatasetTree), words.length = count ∧
      content = magic.toList ++ Word.concat words ∧
      ofContent positions content = .ok dataset ∧ dataset.registered = positions ∧
      Merkle.Complete words (fun place => place < words.length ∧ place ∈ positions) dataset := by
  obtain ⟨magic, words, rfl, rfl⟩ := counted.exists_words
  obtain ⟨dataset, built, read⟩ := Merkle.ofElements_eq_ok (ν := DatasetNode) nonempty positions
  exact ⟨magic, words, dataset, rfl, rfl, (ofContent_words positions magic counted.few).trans built,
    read⟩

/-- Content with a magic number only is read as the empty tree, which is refused. -/
theorem ofContent_of_no_words (empty : WordCount content.length 0) :
    ofContent positions content = .error (.tree .noLeaves) ∧
      DatasetFlaw positions content (.tree .noLeaves) := by
  obtain ⟨magic, words, none, rfl⟩ := empty.exists_words
  obtain rfl : words = [] := List.length_eq_zero_iff.1 none
  have few : ([] : List Word).length < wordLimit := empty.few
  exact ⟨ofContent_words positions magic few, .noWords⟩

/-- Content is either flawed, and then the flaw is told, or it is read as the tree over its words. -/
theorem ofContent_cases (positions : List Nat) (content : List UInt8) :
    (∃ error, ofContent positions content = .error error ∧ DatasetFlaw positions content error) ∨
      ∃ (magic : FixedBytes 8) (words : List Word) (dataset : DatasetTree),
        content = magic.toList ++ Word.concat words ∧
        ofContent positions content = .ok dataset ∧ dataset.registered = positions ∧
        Merkle.Complete words (fun place => place < words.length ∧ place ∈ positions) dataset := by
  rcases wordCount_or_badLength content.length with ⟨count, counted⟩ | ⟨fault, bad⟩
  · cases count with
    | zero => exact .inl ⟨_, ofContent_of_no_words counted⟩
    | succ count =>
        obtain ⟨magic, words, dataset, _, read⟩ :=
          exists_ofContent_of_wordCount counted (Nat.zero_lt_succ count) positions
        exact .inr ⟨magic, words, dataset, read⟩
  · exact .inl ⟨_, ofContent_of_badLength bad, .of_badLength bad⟩

end DatasetTree

end MiningPool
