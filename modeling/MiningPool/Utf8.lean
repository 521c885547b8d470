/-
Module: MiningPool.Utf8
Purpose: reading UTF-8.
Main exports: Utf8.decode?, Utf8.encode
-/

/-!
`decode?` accepts exactly the well-formed byte sequences: no overlong form, no surrogate, nothing above
U+10FFFF, no character cut short. `encode` writes the bytes of a text.
-/

namespace MiningPool.Utf8

/-- The low six bits of a continuation byte. -/
def tail? (b : UInt8) : Option Nat :=
  if 0x80 ≤ b.toNat ∧ b.toNat ≤ 0xBF then some (b.toNat - 0x80) else none

/-- The character of a code point from `low` on that is not a surrogate. -/
def scalar? (low code : Nat) : Option Char :=
  if low ≤ code then
    if h : code.isValidChar then some (Char.ofNatAux code h) else none
  else none

/-- The first character of a byte sequence and the bytes after it. -/
def next? : List UInt8 → Option (Char × List UInt8)
  | [] => none
  | a :: rest =>
    let lead := a.toNat
    if lead < 0x80 then (scalar? 0 lead).map (·, rest)
    else if lead < 0xC0 then none
    else if lead < 0xE0 then
      match rest with
      | b :: rest => do
        let b ← tail? b
        let c ← scalar? 0x80 ((lead - 0xC0) * 64 + b)
        some (c, rest)
      | _ => none
    else if lead < 0xF0 then
      match rest with
      | b :: c :: rest => do
        let b ← tail? b
        let c ← tail? c
        let d ← scalar? 0x800 (((lead - 0xE0) * 64 + b) * 64 + c)
        some (d, rest)
      | _ => none
    else if lead < 0xF8 then
      match rest with
      | b :: c :: d :: rest => do
        let b ← tail? b
        let c ← tail? c
        let d ← tail? d
        let e ← scalar? 0x10000 ((((lead - 0xF0) * 64 + b) * 64 + c) * 64 + d)
        some (e, rest)
      | _ => none
    else none

/-- Decodes at most `limit` characters, the last one first in `done`. -/
def decodeLoop (limit : Nat) (done : List Char) (bytes : List UInt8) : Option (List Char) :=
  match limit, bytes with
  | _, [] => some done.reverse
  | 0, _ :: _ => none
  | limit + 1, bytes =>
    match next? bytes with
    | none => none
    | some (c, rest) => decodeLoop limit (c :: done) rest

/-- The characters that the bytes spell, if they spell any. -/
def decode? (bytes : List UInt8) : Option (List Char) :=
  decodeLoop bytes.length [] bytes

/-- The bytes of one character. -/
def encodeChar (c : Char) : List UInt8 :=
  let code := c.toNat
  if code < 0x80 then [UInt8.ofNat code]
  else if code < 0x800 then
    [UInt8.ofNat (0xC0 + code / 64), UInt8.ofNat (0x80 + code % 64)]
  else if code < 0x10000 then
    [UInt8.ofNat (0xE0 + code / 4096), UInt8.ofNat (0x80 + code / 64 % 64),
      UInt8.ofNat (0x80 + code % 64)]
  else
    [UInt8.ofNat (0xF0 + code / 262144), UInt8.ofNat (0x80 + code / 4096 % 64),
      UInt8.ofNat (0x80 + code / 64 % 64), UInt8.ofNat (0x80 + code % 64)]

/-- The bytes of a text. -/
def encode (text : String) : List UInt8 := text.toList.flatMap encodeChar

end MiningPool.Utf8
