/-
Module: MiningPool.Dataset.Reader
Purpose: reading a dataset from a stream of bytes that arrive in any portions.
Main exports: ReadResult, DatasetReader.read, DatasetTree.ofContent
-/
import MiningPool.Dataset.Tree
import MiningPool.Number.Power

/-!
A dataset is a magic number of eight bytes, whose value does not matter, and then words back to back. A
stream hands out its bytes in portions of any size; a portion without bytes is its end, an interruption
means nothing, and a failure stops the reading. Every complete word is put into the tree as soon as its
last byte has arrived, so that after a fault the tree holds the words in front of it.
-/

namespace MiningPool

/-- What one attempt to read from a stream gives. -/
inductive ReadResult where
  /-- The next bytes; none at the end. -/
  | data (bytes : List UInt8)
  | interrupted
  | failed (error : Error)

/-- A dataset being read. -/
structure DatasetReader where
  tree : DatasetBuilder
  /-- The number of words so far. -/
  words : Nat
  /-- Whether the magic number is complete. -/
  begun : Bool
  /-- The bytes of what is incomplete. -/
  pending : List UInt8

namespace DatasetReader

/-- The length of the magic number. -/
def magicLength : Nat := 8

/-- The number of words that positions of 32 bits can tell apart. -/
def wordLimit : Nat := 2 ^ (32 : Nat)

/-- Nothing has been read; words go into the given tree. -/
def start (tree : DatasetBuilder) : DatasetReader := ⟨tree, 0, false, []⟩

/-- Puts a word into the tree. The last position that 32 bits can name is one too many. -/
def insertWord (reader : DatasetReader) (word : Word) : DatasetReader × Option Error :=
  match reader.tree.insert word reader.words with
  | (tree, .error error) => ({ reader with tree }, some error)
  | (tree, .ok ()) =>
    let reader := { reader with tree, words := reader.words + 1 }
    (reader, if reader.words = wordLimit then some (.dataset .tooManyWords) else none)

/-- Splits off complete words, at most this many, and keeps the bytes after them. -/
def takeWords (reader : DatasetReader) : Nat → List UInt8 → DatasetReader × Option Error
  | 0, bytes => ({ reader with pending := bytes }, none)
  | limit + 1, bytes =>
    match FixedBytes.ofList? 128 (bytes.take 128) with
    | none => ({ reader with pending := bytes }, none)
    | some word =>
      match reader.insertWord word with
      | (reader, some error) => (reader, some error)
      | (reader, none) => takeWords reader limit (bytes.drop 128)

/-- Takes in a portion. -/
def feed (reader : DatasetReader) (bytes : List UInt8) : DatasetReader × Option Error :=
  let bytes := reader.pending ++ bytes
  if reader.begun then reader.takeWords (bytes.length / 128) bytes
  else if bytes.length < magicLength then ({ reader with pending := bytes }, none)
  else
    let bytes := bytes.drop magicLength
    { reader with begun := true }.takeWords (bytes.length / 128) bytes

/-- What the end of the stream means: the number of words, or a fault. -/
def finish (reader : DatasetReader) : Except Error Nat :=
  if !reader.begun then .error (.dataset (.insideMagic reader.pending.length))
  else if reader.pending.isEmpty then .ok reader.words
  else .error (.dataset (.partialWord reader.pending.length reader.words))

/-- Reads up to the end of the stream or the first fault. -/
def read (reader : DatasetReader) : List ReadResult → DatasetReader × Except Error Nat
  | [] => (reader, reader.finish)
  | .interrupted :: rest => read reader rest
  | .failed error :: _ => (reader, .error error)
  | .data [] :: _ => (reader, reader.finish)
  | .data (b :: bytes) :: rest =>
    match reader.feed (b :: bytes) with
    | (reader, some error) => (reader, .error error)
    | (reader, none) => read reader rest

end DatasetReader

/-- The tree of a dataset that is at hand as a whole, with the branches of the given positions. -/
def DatasetTree.ofContent (positions : List Nat) (content : List UInt8) : Except Error DatasetTree := do
  let (reader, result) := (DatasetReader.start (TreeBuilder.empty.register positions)).read [.data content]
  let _ ← result
  reader.tree.close

/-- The tree of a dataset file, given what came of reading the file. -/
def DatasetTree.ofFile (positions : List Nat) (file : Except FileFault (List UInt8)) :
    Except Error DatasetTree :=
  match file with
  | .error fault => .error (.file fault)
  | .ok content => DatasetTree.ofContent positions content

end MiningPool
