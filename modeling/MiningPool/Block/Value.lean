/-
Module: MiningPool.Block.Value
Purpose: the fixed-size values of the chain and their hexadecimal text.
Main exports: Hash256, Address, Bloom, BlockNonce, FixedBytes.text, FixedBytes.parse
-/
import MiningPool.Bytes
import MiningPool.Hex
import MiningPool.Text.Quoted
import MiningPool.Utf8

/-!
Hashes and addresses are byte strings of a fixed length. Their text is `0x` and two lower-case digits for
every byte. Reading takes digits of either case, with or without one `0x` in front; the length is checked
before the digits.
-/

namespace MiningPool

/-- A hash of 32 bytes: of a block, a transaction, a seed, or a target that a hash is compared with. -/
abbrev Hash256 := FixedBytes 32

/-- An account address. -/
abbrev Address := FixedBytes 20

/-- The log bloom of a block header. -/
abbrev Bloom := FixedBytes 256

/-- A block nonce, big-endian where it is written as bytes. -/
abbrev BlockNonce := UInt64

/-- Why a text is no fixed-size value. -/
inductive HexTextFault where
  /-- The text has the wrong number of UTF-8 bytes. -/
  | wrongLength (expected found : Nat)
  /-- The byte at this position is no hexadecimal digit. -/
  | badDigit (byte : UInt8) (position : Nat)
deriving Repr, DecidableEq

def HexTextFault.message : HexTextFault → String
  | wrongLength expected found => s!"expected {expected} hex characters, got {found}"
  | badDigit byte position =>
    "invalid hex: Invalid character " ++ Text.quoteChar (Char.ofNat byte.toNat) ++
      s!" at position {position}"

/-- A text without its `0x`, if it begins so. -/
def withoutMark (text : String) : Option String :=
  match text.toList with
  | '0' :: 'x' :: rest => some (String.ofList rest)
  | _ => none

namespace FixedBytes

variable {n : Nat}

/-- The digits without a mark in front. -/
def digits (value : FixedBytes n) : String := Hex.text value.toList

/-- The digits behind `0x`. -/
def text (value : FixedBytes n) : String := Hex.marked value.toList

/-- The text with the name of the kind of value. -/
def namedText (kind : String) (value : FixedBytes n) : String := kind ++ "(" ++ value.text ++ ")"

/-- The value as a big-endian integer. -/
def toNat (value : FixedBytes n) : Nat := natBE value.toList

/-- Reads a value of `n` bytes. -/
def parse (n : Nat) (text : String) : Except HexTextFault (FixedBytes n) :=
  let bytes := Utf8.encode ((withoutMark text).getD text)
  if hlen : bytes.length = 2 * n then
    match h : Hex.decode bytes with
    | .ok value => .ok ⟨value, by have := Hex.length_of_decode h; omega⟩
    | .error (.badDigit byte position) => .error (.badDigit byte position)
    | .error .oddLength => .error (.wrongLength (2 * n) bytes.length)
  else .error (.wrongLength (2 * n) bytes.length)

/-- The first `2 * k` digits behind `0x`, and a sign that more follow. -/
def shortText (kind : String) (k : Nat) (value : FixedBytes n) : String :=
  kind ++ "(" ++ Hex.marked (value.toList.take k) ++ "..)"

end FixedBytes

namespace BlockNonce

/-- The eight bytes, most significant first. -/
def toBytes (nonce : BlockNonce) : FixedBytes 8 := ⟨fixedBE 8 nonce.toNat, length_fixedBE 8 _⟩

/-- `0x` and sixteen digits. -/
def text (nonce : BlockNonce) : String := (toBytes nonce).text

/-- Reads eight bytes. -/
def parse (text : String) : Except HexTextFault BlockNonce :=
  (FixedBytes.parse 8 text).map fun bytes => UInt64.ofNat bytes.toNat

end BlockNonce

end MiningPool
