/-
Module: MiningPool.Hex
Purpose: hexadecimal text of byte strings.
Main exports: Hex.encode, Hex.decode, Hex.Fault
-/

/-!
Bytes are written as two lower-case digits each. Reading takes digits of either case, works on the
UTF-8 bytes of a text, and names the first byte that is no digit together with its position.
-/

namespace MiningPool.Hex

/-- The digit of a value below sixteen. -/
def digit (v : Nat) : Char :=
  if v < 10 then Char.ofNat (48 + v) else Char.ofNat (87 + v)

/-- The value of an ASCII digit of either case. -/
def digitValue? (b : UInt8) : Option Nat :=
  let v := b.toNat
  if 48 ≤ v ∧ v ≤ 57 then some (v - 48)
  else if 97 ≤ v ∧ v ≤ 102 then some (v - 87)
  else if 65 ≤ v ∧ v ≤ 70 then some (v - 55)
  else none

/-- The two digits of a byte, high half first. -/
def encodeByte (b : UInt8) : List Char :=
  [digit (b.toNat / 16), digit (b.toNat % 16)]

/-- Two lower-case digits for every byte. -/
def encode (bytes : List UInt8) : List Char :=
  bytes.flatMap encodeByte

/-- The text of a byte string, without a marker in front. -/
def text (bytes : List UInt8) : String := String.ofList (encode bytes)

/-- The text of a byte string behind `0x`. -/
def marked (bytes : List UInt8) : String := "0x" ++ text bytes

/-- Why a text is no hexadecimal byte string. -/
inductive Fault where
  /-- The byte at this position is no digit. -/
  | badDigit (byte : UInt8) (position : Nat)
  /-- The last digit has no partner. -/
  | oddLength
deriving Repr, DecidableEq

/-- Reads digits two at a time, the high digit of a pair before the low one; `position` is that of
the next byte. -/
def decodeFrom (position : Nat) : List UInt8 → Except Fault (List UInt8)
  | [] => .ok []
  | [_] => .error .oddLength
  | high :: low :: rest =>
    match digitValue? high, digitValue? low with
    | none, _ => .error (.badDigit high position)
    | some _, none => .error (.badDigit low (position + 1))
    | some h, some l =>
      match decodeFrom (position + 2) rest with
      | .error fault => .error fault
      | .ok bytes => .ok (UInt8.ofNat (h * 16 + l) :: bytes)

/-- Reads a whole text of digits. -/
def decode (digits : List UInt8) : Except Fault (List UInt8) := decodeFrom 0 digits

theorem length_of_decodeFrom {position : Nat} {digits bytes : List UInt8}
    (h : decodeFrom position digits = .ok bytes) : digits.length = 2 * bytes.length := by
  fun_induction decodeFrom position digits generalizing bytes with
  | case1 => cases h; rfl
  | case2 => cases h
  | case3 => cases h
  | case4 => cases h
  | case5 => simp_all
  | case6 _ _ _ _ _ _ _ _ inner eq ih =>
    rw [eq] at ih
    simp only [Except.ok.injEq] at h
    subst h
    have := ih rfl
    simp only [List.length_cons]
    omega

theorem length_of_decode {digits bytes : List UInt8} (h : decode digits = .ok bytes) :
    digits.length = 2 * bytes.length := length_of_decodeFrom h

end MiningPool.Hex
