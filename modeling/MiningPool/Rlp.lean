/-
Module: MiningPool.Rlp
Purpose: the recursive length-marked encoding of byte strings and lists.
Main exports: Rlp.Item, Rlp.Item.encode, Rlp.decode?
-/
import MiningPool.Bytes

/-!
An item is a byte string or a list of items. A single byte below `0x80` stands for itself. Anything else
has a head: its length added to a base if it is at most 55, or else the length of the length, added to
the base and 55, and the length in its shortest big-endian form. The base is `0x80` for byte strings and
`0xC0` for lists, whose payload is their encoded items one after another. Integers are byte strings in
their shortest big-endian form.

`decode?` reads one item and what follows it. It accepts the shortest head only, so that every item has
one encoding.
-/

namespace MiningPool.Rlp

/-- A byte string or a list. -/
inductive Item where
  | bytes (value : List UInt8)
  | list (items : List Item)
deriving Repr

/-- The head of a payload of length `n`. -/
def head (base n : Nat) : List UInt8 :=
  if n ≤ 55 then [UInt8.ofNat (base + n)]
  else
    let size := minimalBE n
    UInt8.ofNat (base + 55 + size.length) :: size

/-- A byte string with its head, if it needs one. -/
def encodeBytes (value : List UInt8) : List UInt8 :=
  match value with
  | [b] => if b.toNat < 0x80 then [b] else head 0x80 1 ++ [b]
  | _ => head 0x80 value.length ++ value

mutual

/-- The encoding of an item. -/
def Item.encode : Item → List UInt8
  | .bytes value => encodeBytes value
  | .list items =>
    let payload := encodeAll items
    head 0xC0 payload.length ++ payload

/-- The encodings of items, one after another. -/
def encodeAll : List Item → List UInt8
  | [] => []
  | item :: items => item.encode ++ encodeAll items

end

/-- The length that a long head announces in its next `size` bytes, and what follows them. -/
def longLength? (size : Nat) (bytes : List UInt8) : Option (Nat × List UInt8) :=
  let digits := bytes.take size
  let length := natBE digits
  if digits.length = size ∧ 55 < length ∧ digits = minimalBE length then some (length, bytes.drop size)
  else none

/-- Splits off a payload of a known length. -/
def payload? (length : Nat) (bytes : List UInt8) : Option (List UInt8 × List UInt8) :=
  if length ≤ bytes.length then some (bytes.take length, bytes.drop length) else none

mutual

/-- Reads one item, at most `depth` lists deep, and returns what follows it. -/
def decodeItem? (depth : Nat) (bytes : List UInt8) : Option (Item × List UInt8) :=
  match bytes with
  | [] => none
  | first :: rest =>
    let lead := first.toNat
    if lead < 0x80 then some (.bytes [first], rest)
    else if lead < 0xC0 then do
      let (length, rest) ←
        if lead ≤ 0xB7 then some (lead - 0x80, rest) else longLength? (lead - 0xB7) rest
      let (value, rest) ← payload? length rest
      match value with
      | [b] => if b.toNat < 0x80 then none else some (.bytes value, rest)
      | _ => some (.bytes value, rest)
    else do
      let (length, rest) ←
        if lead ≤ 0xF7 then some (lead - 0xC0, rest) else longLength? (lead - 0xF7) rest
      let (inside, rest) ← payload? length rest
      match depth with
      | 0 => none
      | depth + 1 =>
        let items ← decodeItems? depth inside.length inside
        some (.list items, rest)
termination_by (depth, 0)

/-- Reads at most `limit` items up to the end of the bytes. -/
def decodeItems? (depth limit : Nat) (bytes : List UInt8) : Option (List Item) :=
  match limit, bytes with
  | _, [] => some []
  | 0, _ :: _ => none
  | limit + 1, bytes => do
    let (item, rest) ← decodeItem? depth bytes
    let items ← decodeItems? depth limit rest
    some (item :: items)
termination_by (depth, limit + 1)

end

/-- Reads one item and returns what follows it. -/
def decode? (bytes : List UInt8) : Option (Item × List UInt8) :=
  decodeItem? bytes.length bytes

end MiningPool.Rlp
