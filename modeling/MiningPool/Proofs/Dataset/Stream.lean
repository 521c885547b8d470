/-
Module: MiningPool.Proofs.Dataset.Stream
Purpose: what is read of a dataset does not depend on the portions in which its bytes arrive.
Main exports: ReadResult.delivered, DatasetReader.Holds, DatasetReader.Exact,
  DatasetReader.exact_read, DatasetReader.read_exact
-/
import MiningPool.Proofs.Dataset.Reader

/-!
A reader that is still short of a magic number keeps all bytes; afterwards it has put the complete words
into the tree and keeps the bytes behind them. So it can be told from the bytes so far what it holds, and
every portion takes what it holds of the bytes before to what it holds of the bytes with the portion. Where
words become too many, they do so in the portion that brings the last byte of the word in question.
-/

namespace MiningPool

/-! ### Streams -/

namespace ReadResult

/-- The bytes that a stream hands out before it ends or fails. -/
def delivered : List ReadResult → List UInt8
  | [] => []
  | .interrupted :: rest => delivered rest
  | .failed _ :: _ => []
  | .data [] :: _ => []
  | .data (first :: bytes) :: rest => first :: bytes ++ delivered rest

/-- What a stream fails with, unless it ends before. -/
def failure? : List ReadResult → Option Error
  | [] => none
  | .interrupted :: rest => failure? rest
  | .failed error :: _ => some error
  | .data [] :: _ => none
  | .data (_ :: _) :: rest => failure? rest

end ReadResult

namespace DatasetReader

open ReadResult

/-- The number of bytes at which there are too many words. -/
def byteLimit : Nat := magicLength + 128 * wordLimit

variable {positions : List Nat} {reader : DatasetReader} {bytes : List UInt8}

theorem length_dataset (magic : FixedBytes 8) (words : List Word) (tail : List UInt8) :
    (magic.toList ++ (Word.concat words ++ tail)).length =
      magicLength + (128 * words.length + tail.length) := by
  rw [List.length_append, List.length_append, magic.length_toList, Word.length_concat]
  rfl

theorem exists_magic {bytes : List UInt8} (long : magicLength ≤ bytes.length) :
    ∃ (magic : FixedBytes 8) (rest : List UInt8), bytes = magic.toList ++ rest :=
  FixedBytes.exists_append long

theorem drop_magic (magic : FixedBytes 8) (bytes : List UInt8) :
    (magic.toList ++ bytes).drop magicLength = bytes :=
  List.drop_left' magic.length_toList

/-- What a reader holds after these bytes. -/
inductive Holds (positions : List Nat) : DatasetReader → List UInt8 → Prop where
  | unbegun {bytes : List UInt8} (short : bytes.length < magicLength) :
      Holds positions ⟨TreeBuilder.empty.register positions, 0, false, bytes⟩ bytes
  | begun {magic : FixedBytes 8} {words : List Word} {full : DatasetBuilder} {tail : List UInt8}
      (inserted : (TreeBuilder.empty.register positions).insertFrom 0 words = .ok full)
      (few : words.length < wordLimit) (cut : tail.length < 128) :
      Holds positions ⟨full, words.length, true, tail⟩ (magic.toList ++ (Word.concat words ++ tail))

theorem holds_start (positions : List Nat) :
    Holds positions (start (TreeBuilder.empty.register positions)) [] :=
  .unbegun (Nat.zero_lt_succ 7)

/-! ### One portion -/

theorem insertFrom_nil (positions : List Nat) :
    (TreeBuilder.empty.register positions : DatasetBuilder).insertFrom 0 [] =
      .ok (TreeBuilder.empty.register positions) := rfl

/-- Behind words that are in the tree, further bytes are split into words and a rest. -/
theorem holds_takeWords (magic : FixedBytes 8) {words : List Word} {full : DatasetBuilder}
    (inserted : (TreeBuilder.empty.register positions).insertFrom 0 words = .ok full)
    (kept bytes : List UInt8)
    (few : (magic.toList ++ (Word.concat words ++ bytes)).length < byteLimit) :
    ∃ next, takeWords ⟨full, words.length, true, kept⟩ (bytes.length / 128) bytes = (next, none) ∧
      Holds positions next (magic.toList ++ (Word.concat words ++ bytes)) := by
  obtain ⟨more, tail, count, rfl⟩ :=
    Word.exists_concat_append (bytes.length / 128) (Nat.mul_div_le bytes.length 128)
  have next : full.inserted = words.length := by
    simpa using TreeBuilder.inserted_of_insertFrom inserted rfl
  obtain ⟨larger, taken⟩ := TreeBuilder.exists_insertFrom_eq next more
  simp only [List.length_append, magic.length_toList, Word.length_concat, byteLimit, magicLength]
    at few count
  have all : (TreeBuilder.empty.register positions).insertFrom 0 (words ++ more) = .ok larger := by
    rw [TreeBuilder.insertFrom_append inserted, Nat.zero_add]
    exact taken
  have together : Word.concat words ++ (Word.concat more ++ tail) =
      Word.concat (words ++ more) ++ tail := by
    rw [← List.append_assoc, Word.concat, Word.concat, ← List.flatMap_append, Word.concat]
  have number : words.length + more.length = (words ++ more).length := List.length_append.symm
  refine ⟨⟨larger, words.length + more.length, true, tail⟩, ?_, ?_⟩
  · rw [List.length_append, Word.length_concat, ← count]
    exact takeWords_words taken (by simp only; omega) tail
  · rw [together, number]
    exact .begun all (by omega) (by omega)

/-- Behind words that are in the tree, too many further words are noticed. -/
theorem takeWords_tooMany_of_inserted {words : List Word} {full : DatasetBuilder}
    (inserted : (TreeBuilder.empty.register positions).insertFrom 0 words = .ok full)
    (few : words.length < wordLimit) (kept : List UInt8)
    (many : 128 * wordLimit ≤ (Word.concat words ++ bytes).length) :
    (takeWords ⟨full, words.length, true, kept⟩ (bytes.length / 128) bytes).2 =
      some (.dataset .tooManyWords) := by
  rw [List.length_append, Word.length_concat] at many
  have long : 128 * (wordLimit - words.length) ≤ bytes.length := by omega
  obtain ⟨more, tail, count, rfl⟩ := Word.exists_concat_append (wordLimit - words.length) long
  apply takeWords_tooMany
  · simpa using TreeBuilder.inserted_of_insertFrom inserted rfl
  · omega
  · simp only
    omega
  · rw [List.length_append, Word.length_concat]
    omega

/-- A portion takes what is held of the bytes before to what is held of the bytes with it. -/
theorem Holds.feed (holds : Holds positions reader bytes) (portion : List UInt8)
    (few : (bytes ++ portion).length < byteLimit) :
    ∃ next, reader.feed portion = (next, none) ∧ Holds positions next (bytes ++ portion) := by
  cases holds with
  | unbegun short =>
      rw [DatasetReader.feed, if_neg Bool.false_ne_true]
      by_cases still : (bytes ++ portion).length < magicLength
      · exact ⟨_, if_pos still, .unbegun still⟩
      · obtain ⟨magic, rest, spelled⟩ := exists_magic (Nat.le_of_not_lt still)
        simp only [if_neg still]
        rw [spelled, drop_magic]
        exact holds_takeWords magic (insertFrom_nil positions) bytes rest (spelled ▸ few)
  | @begun magic words full tail inserted _ cut =>
      have spelled : magic.toList ++ (Word.concat words ++ tail) ++ portion =
          magic.toList ++ (Word.concat words ++ (tail ++ portion)) := by
        simp only [List.append_assoc]
      rw [spelled] at few ⊢
      rw [DatasetReader.feed, if_pos rfl]
      exact holds_takeWords magic inserted tail (tail ++ portion) few

/-- A portion that brings too many words is refused. -/
theorem Holds.feed_tooMany (holds : Holds positions reader bytes) {portion : List UInt8}
    (many : byteLimit ≤ (bytes ++ portion).length) :
    (reader.feed portion).2 = some (.dataset .tooManyWords) := by
  rw [byteLimit] at many
  cases holds with
  | unbegun short =>
      have long : magicLength ≤ (bytes ++ portion).length := (Nat.le_add_right _ _).trans many
      obtain ⟨magic, rest, spelled⟩ := exists_magic long
      rw [DatasetReader.feed, if_neg Bool.false_ne_true]
      simp only [if_neg (Nat.not_lt.2 long)]
      rw [spelled, List.length_append, magic.length_toList] at many
      rw [spelled, drop_magic]
      exact takeWords_tooMany_of_inserted (insertFrom_nil positions) (Nat.two_pow_pos _) bytes
        (Nat.le_of_add_le_add_left many)
  | begun inserted few cut =>
      rw [DatasetReader.feed, if_pos rfl]
      apply takeWords_tooMany_of_inserted inserted few
      rw [List.append_assoc, List.append_assoc, List.length_append, FixedBytes.length_toList] at many
      exact Nat.le_of_add_le_add_left many

/-! ### The whole stream -/

/-- What reading returns: the failure of the stream, or what its end means. -/
def outcome (last : DatasetReader) : Option Error → Except Error Nat
  | some error => .error error
  | none => last.finish

/-- At the end or the failure of a stream, the reader holds what has been delivered. -/
theorem Holds.read (holds : Holds positions reader bytes) (stream : List ReadResult)
    (few : (bytes ++ delivered stream).length < byteLimit) :
    ∃ last, reader.read stream = (last, last.outcome (failure? stream)) ∧
      Holds positions last (bytes ++ delivered stream) := by
  induction stream generalizing reader bytes with
  | nil => exact ⟨reader, rfl, by rwa [delivered, List.append_nil]⟩
  | cons attempt rest ih =>
      cases attempt with
      | interrupted => exact ih holds few
      | failed error => exact ⟨reader, rfl, by rwa [delivered, List.append_nil]⟩
      | data portion =>
          cases portion with
          | nil => exact ⟨reader, rfl, by rwa [delivered, List.append_nil]⟩
          | cons first portion =>
              rw [delivered, ← List.append_assoc] at few ⊢
              obtain ⟨next, fed, nextHolds⟩ := holds.feed (first :: portion) (by
                rw [List.length_append] at few
                exact Nat.lt_of_le_of_lt (Nat.le_add_right _ _) few)
              rw [DatasetReader.read, fed]
              exact ih nextHolds few

/-- Too many words are noticed, however the stream goes on. -/
theorem Holds.read_tooMany (holds : Holds positions reader bytes) (stream : List ReadResult)
    (few : bytes.length < byteLimit) (many : byteLimit ≤ (bytes ++ delivered stream).length) :
    (reader.read stream).2 = .error (.dataset .tooManyWords) := by
  have nonempty : delivered stream ≠ [] := by
    intro nothing
    rw [nothing, List.append_nil] at many
    exact Nat.not_le.2 few many
  induction stream generalizing reader bytes with
  | nil => exact absurd rfl nonempty
  | cons attempt rest ih =>
      cases attempt with
      | interrupted => exact ih holds few many nonempty
      | failed error => exact absurd rfl nonempty
      | data portion =>
          cases portion with
          | nil => exact absurd rfl nonempty
          | cons first portion =>
              rw [delivered, ← List.append_assoc] at many
              rw [DatasetReader.read]
              by_cases still : (bytes ++ first :: portion).length < byteLimit
              · obtain ⟨next, fed, nextHolds⟩ := holds.feed (first :: portion) still
                rw [fed]
                apply ih nextHolds still many
                intro nothing
                rw [nothing, List.append_nil] at many
                exact Nat.not_le.2 still many
              · have refused := holds.feed_tooMany (Nat.le_of_not_lt still)
                generalize reader.feed (first :: portion) = fed at refused
                obtain ⟨next, _⟩ := fed
                cases refused
                rfl

/-! ### Exactness -/

/-- What reading comes to, told from the bytes of the stream and its failure. -/
structure Exact (positions : List Nat) (bytes : List UInt8) (failure : Option Error)
    (read : DatasetReader × Except Error Nat) : Prop where
  /-- The complete words behind the magic number have been put into the tree from position zero on. -/
  words : ∃ (words : List Word) (tail : List UInt8),
    bytes.drop magicLength = Word.concat words ++ tail ∧ tail.length < 128 ∧
      (TreeBuilder.empty.register positions).insertFrom 0 words = .ok read.1.tree
  inserted : read.1.tree.inserted = (max bytes.length magicLength - magicLength) / 128
  failed : ∀ error, failure = some error → read.2 = .error error
  complete : failure = none →
    ∀ count, read.2 = .ok count ↔ bytes.length = magicLength + 128 * count
  insideMagic : failure = none → bytes.length < magicLength →
    read.2 = .error (.dataset (.insideMagic bytes.length))
  partialWord : failure = none → magicLength ≤ bytes.length →
    (bytes.length - magicLength) % 128 ≠ 0 → read.2 = .error (.dataset
      (.partialWord ((bytes.length - magicLength) % 128) ((bytes.length - magicLength) / 128)))

/-- The end of the stream is judged by the number of bytes. -/
theorem Holds.exact (holds : Holds positions reader bytes) (failure : Option Error) :
    Exact positions bytes failure (reader, reader.outcome failure) := by
  cases holds with
  | unbegun short =>
      exact {
        words := ⟨[], [], List.drop_eq_nil_of_le (Nat.le_of_lt short), Nat.zero_lt_succ _, rfl⟩
        inserted := by
          rw [Nat.max_eq_right (Nat.le_of_lt short), Nat.sub_self]
          rfl
        failed := by rintro error rfl; rfl
        complete := by
          rintro rfl count
          constructor
          · intro read
            cases read
          · intro length
            omega
        insideMagic := by rintro rfl _; rfl
        partialWord := fun _ long => absurd short (Nat.not_lt.2 long) }
  | @begun magic words full tail inserted few cut =>
      have length := length_dataset magic words tail
      have long : ¬(magic.toList ++ (Word.concat words ++ tail)).length < magicLength := by omega
      have count : ((magic.toList ++ (Word.concat words ++ tail)).length - magicLength) / 128 =
          words.length := by omega
      have left : ((magic.toList ++ (Word.concat words ++ tail)).length - magicLength) % 128 =
          tail.length := by omega
      exact {
        words := ⟨words, tail, drop_magic magic _, cut, inserted⟩
        inserted := by
          rw [Nat.max_eq_left (Nat.le_of_not_lt long), count,
            TreeBuilder.inserted_of_insertFrom inserted rfl, Nat.zero_add]
        failed := by rintro error rfl; rfl
        complete := by
          rintro rfl number
          rw [length, outcome, finish]
          cases tail with
          | nil => simp
          | cons first tail =>
              rw [List.length_cons] at cut
              simp
              omega
        insideMagic := fun _ short => absurd short long
        partialWord := by
          rintro rfl _ begun
          rw [left] at begun ⊢
          rw [count, outcome, finish]
          have nonempty : tail ≠ [] := mt List.length_eq_zero_iff.2 begun
          simp [nonempty] }

/-- Exact readings of the same bytes are the same. -/
theorem Exact.unique {failure : Option Error} {read read' : DatasetReader × Except Error Nat}
    (exact : Exact positions bytes failure read) (exact' : Exact positions bytes failure read') :
    read.2 = read'.2 ∧ read.1.tree = read'.1.tree := by
  constructor
  · cases failure with
    | some error => rw [exact.failed error rfl, exact'.failed error rfl]
    | none =>
        by_cases short : bytes.length < magicLength
        · rw [exact.insideMagic rfl short, exact'.insideMagic rfl short]
        have long := Nat.le_of_not_lt short
        by_cases whole : (bytes.length - magicLength) % 128 = 0
        · have length : bytes.length = magicLength + 128 * ((bytes.length - magicLength) / 128) := by
            omega
          rw [(exact.complete rfl _).2 length, (exact'.complete rfl _).2 length]
        · rw [exact.partialWord rfl long whole, exact'.partialWord rfl long whole]
  · obtain ⟨words, tail, spelled, cut, inserted⟩ := exact.words
    obtain ⟨words', tail', spelled', cut', inserted'⟩ := exact'.words
    obtain ⟨rfl, rfl⟩ := Word.concat_append_injective cut cut' (spelled.symm.trans spelled')
    rw [inserted, Except.ok.injEq] at inserted'
    exact inserted'

/-- Fewer bytes than the limit are read exactly. -/
theorem exact_read {stream : List ReadResult} (few : (delivered stream).length < byteLimit) :
    Exact positions (delivered stream) (failure? stream)
      ((start (TreeBuilder.empty.register positions)).read stream) := by
  obtain ⟨last, read, holds⟩ := (holds_start positions).read stream few
  rw [read]
  exact holds.exact (failure? stream)

/-- As many bytes as the limit are too many. -/
theorem read_eq_tooMany {stream : List ReadResult} (many : byteLimit ≤ (delivered stream).length) :
    ((start (TreeBuilder.empty.register positions)).read stream).2 =
      .error (.dataset .tooManyWords) :=
  (holds_start positions).read_tooMany stream (by decide) many

/-- Reading is exact below the limit, and above it nothing is accepted. It depends on nothing but the bytes
and the failure of a stream. -/
theorem read_exact (positions : List Nat) (stream : List ReadResult) :
    ((delivered stream).length < byteLimit →
      Exact positions (delivered stream) (failure? stream)
        ((start (TreeBuilder.empty.register positions)).read stream) ∧
      ∀ other, delivered other = delivered stream → failure? other = failure? stream →
        ((start (TreeBuilder.empty.register positions)).read other).2 =
            ((start (TreeBuilder.empty.register positions)).read stream).2 ∧
          ((start (TreeBuilder.empty.register positions)).read other).1.tree =
            ((start (TreeBuilder.empty.register positions)).read stream).1.tree) ∧
    (byteLimit ≤ (delivered stream).length →
      ((start (TreeBuilder.empty.register positions)).read stream).2 =
        .error (.dataset .tooManyWords)) := by
  refine ⟨fun few => ⟨exact_read few, ?_⟩, read_eq_tooMany⟩
  intro other bytes failure
  have otherExact : Exact positions (delivered other) (failure? other)
      ((start (TreeBuilder.empty.register positions)).read other) := exact_read (bytes ▸ few)
  rw [bytes, failure] at otherExact
  exact otherExact.unique (exact_read few)

/-- The magic number and one word in portions that end nowhere in particular, and bytes behind the end. -/
def portions : List ReadResult :=
  [.interrupted, .data (List.replicate 3 0), .data (List.replicate 100 1), .interrupted, .interrupted,
    .data (List.replicate 33 2), .data [], .data [5]]

theorem read_exact_portions :
    (delivered portions).length < byteLimit ∧
      Exact [0] (delivered portions) none
        ((start (TreeBuilder.empty.register [0])).read portions) ∧
      ((start (TreeBuilder.empty.register [0])).read portions).2 = .ok 1 := by
  have few : (delivered portions).length < byteLimit := by decide +kernel
  have exact := ((read_exact [0] portions).1 few).1
  exact ⟨few, exact, (exact.complete rfl 1).2 (by decide +kernel)⟩

/-! ### Content at hand as a whole -/

theorem delivered_content (content : List UInt8) : delivered [.data content] = content := by
  cases content with
  | nil => rfl
  | cons first rest => exact congrArg (first :: ·) (List.append_nil rest)

theorem failure?_content (content : List UInt8) : failure? [.data content] = none := by
  cases content <;> rfl

theorem exact_read_content {content : List UInt8} (few : content.length < byteLimit) :
    Exact positions content none
      ((start (TreeBuilder.empty.register positions)).read [.data content]) := by
  have whole : Exact positions (delivered [.data content]) (failure? [.data content])
      ((start (TreeBuilder.empty.register positions)).read [.data content]) :=
    exact_read (by rwa [delivered_content])
  rwa [delivered_content, failure?_content] at whole

end DatasetReader

end MiningPool
