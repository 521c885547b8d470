/-
Module: MiningPool.Json.Token
Purpose: the blanks, words, strings and numbers of JSON text.
Main exports: Json.skipBlank, Json.readString?, Json.readNumber?, Json.skipString?, Json.skipNumber?
-/
import MiningPool.Hex
import MiningPool.Json.Basic
import MiningPool.Number.Power
import MiningPool.Utf8

/-!
JSON is read from bytes. Every reader takes the bytes from the first one of a token on and returns what it
read together with the bytes behind it, or nothing if the token is malformed.

A string may hold any bytes that are UTF-8 text in the end, except control characters. A code point
beyond the sixteen bits of an escape is given by two escapes, and no half of such a pair may stand alone.

The digits of a number are kept as long as they fit into 64 bits; a digit beyond that only moves the
power of ten. A number with a fraction or an exponent, and an integer that does not fit, is the
floating-point product or quotient of the digits and the power of ten, each rounded on its own. A number
beyond the greatest floating-point number is malformed.

What is skipped is only checked for its form.
-/

namespace MiningPool.Json

def isBlank (b : UInt8) : Bool := b = 0x20 || b = 0x0a || b = 0x09 || b = 0x0d

/-- The bytes behind blanks. -/
def skipBlank (bytes : List UInt8) : List UInt8 := bytes.dropWhile isBlank

def isDigit (b : UInt8) : Bool := 0x30 ≤ b && b ≤ 0x39

def digitValue (b : UInt8) : Nat := b.toNat - 0x30

/-- The bytes behind a given word. -/
def afterWord? (word bytes : List UInt8) : Option (List UInt8) :=
  if bytes.take word.length = word then some (bytes.drop word.length) else none

/-! ### Strings -/

/-- The value of four hexadecimal digits. -/
def hexValue? (a b c d : UInt8) : Option Nat := do
  let a ← Hex.digitValue? a
  let b ← Hex.digitValue? b
  let c ← Hex.digitValue? c
  let d ← Hex.digitValue? d
  some (((a * 16 + b) * 16 + c) * 16 + d)

/-- The byte that an escape of one letter stands for. -/
def escaped? (b : UInt8) : Option UInt8 :=
  if b = 0x22 || b = 0x5c || b = 0x2f then some b
  else if b = 0x62 then some 0x08
  else if b = 0x66 then some 0x0c
  else if b = 0x6e then some 0x0a
  else if b = 0x72 then some 0x0d
  else if b = 0x74 then some 0x09
  else none

/-- The first half of a pair. -/
def isLeading (code : Nat) : Bool := 0xD800 ≤ code && code ≤ 0xDBFF

/-- The second half of a pair. -/
def isTrailing (code : Nat) : Bool := 0xDC00 ≤ code && code ≤ 0xDFFF

/-- Puts the bytes of a code point in front of bytes that are in reverse. -/
def pushCode (code : Nat) (done : List UInt8) : List UInt8 :=
  (Utf8.encodeChar (Char.ofNat code)).reverse ++ done

/-- Reads behind the opening quote; the bytes read so far are in reverse. -/
def readStringBytes? (done : List UInt8) : List UInt8 → Option (List UInt8 × List UInt8)
  | [] => none
  | 0x5c :: 0x75 :: a :: b :: c :: d :: rest =>
    match hexValue? a b c d with
    | none => none
    | some code =>
      if isTrailing code then none
      else if isLeading code then
        match rest with
        | 0x5c :: 0x75 :: e :: f :: g :: h :: rest =>
          match hexValue? e f g h with
          | none => none
          | some second =>
            if isTrailing second then
              readStringBytes? (pushCode (0x10000 + (code - 0xD800) * 0x400 + (second - 0xDC00)) done)
                rest
            else none
        | _ => none
      else readStringBytes? (pushCode code done) rest
  | 0x5c :: b :: rest =>
    match escaped? b with
    | some byte => readStringBytes? (byte :: done) rest
    | none => none
  | b :: rest =>
    if b = 0x22 then some (done.reverse, rest)
    else if b = 0x5c || b < 0x20 then none
    else readStringBytes? (b :: done) rest

/-- Reads a string behind its opening quote. -/
def readString? (bytes : List UInt8) : Option (String × List UInt8) := do
  let (content, rest) ← readStringBytes? [] bytes
  let characters ← Utf8.decode? content
  some (String.ofList characters, rest)

/-- Skips a string behind its opening quote. -/
def skipString? : List UInt8 → Option (List UInt8)
  | [] => none
  | 0x5c :: 0x75 :: a :: b :: c :: d :: rest =>
    match hexValue? a b c d with
    | some _ => skipString? rest
    | none => none
  | 0x5c :: b :: rest => if (escaped? b).isSome then skipString? rest else none
  | b :: rest =>
    if b = 0x22 then some rest else if b = 0x5c || b < 0x20 then none else skipString? rest

/-! ### Numbers -/

/-- The parts of a number. -/
structure NumberParts where
  minus : Bool
  /-- The digits in front of the point. -/
  whole : List UInt8
  /-- The digits behind the point, if there is one. -/
  fraction : Option (List UInt8)
  /-- Whether the exponent is negative, and its digits. -/
  exponent : Option (Bool × List UInt8)

/-- Splits digits off the front; there must be one. -/
def someDigits? (bytes : List UInt8) : Option (List UInt8 × List UInt8) :=
  let digits := bytes.takeWhile isDigit
  if digits.isEmpty then none else some (digits, bytes.dropWhile isDigit)

/-- Splits off the fraction, if there is one. -/
def fraction? : List UInt8 → Option (Option (List UInt8) × List UInt8)
  | 0x2e :: rest => (someDigits? rest).map fun (digits, rest) => (some digits, rest)
  | bytes => some (none, bytes)

/-- Splits off the exponent, if there is one. -/
def exponent? : List UInt8 → Option (Option (Bool × List UInt8) × List UInt8)
  | b :: rest =>
    if b = 0x65 || b = 0x45 then
      let (minus, rest) :=
        match rest with
        | 0x2b :: rest => (false, rest)
        | 0x2d :: rest => (true, rest)
        | _ => (false, rest)
      (someDigits? rest).map fun (digits, rest) => (some (minus, digits), rest)
    else some (none, b :: rest)
  | [] => some (none, [])

/-- Splits a number into its parts. No digit may follow a zero in front. -/
def numberParts? (bytes : List UInt8) : Option (NumberParts × List UInt8) := do
  let (minus, bytes) :=
    match bytes with
    | 0x2d :: rest => (true, rest)
    | _ => (false, bytes)
  let (whole, rest) ← someDigits? bytes
  match whole with
  | 0x30 :: _ :: _ => none
  | _ =>
    let (fraction, rest) ← fraction? rest
    let (exponent, rest) ← exponent? rest
    some (⟨minus, whole, fraction, exponent⟩, rest)

/-- Digits that fit into 64 bits and a power of ten. -/
structure Significand where
  digits : Nat
  power : Int
  /-- Whether a digit did not fit. -/
  full : Bool
deriving Repr, DecidableEq

namespace Significand

/-- Takes in a digit in front of the point. Once a digit does not fit, no later one does. -/
def takeWhole (s : Significand) (digit : Nat) : Significand :=
  if s.full || 2 ^ (64 : Nat) ≤ s.digits * 10 + digit then { s with power := s.power + 1, full := true }
  else { s with digits := s.digits * 10 + digit }

/-- Takes in a digit behind the point. -/
def takeFraction (s : Significand) (digit : Nat) : Significand :=
  if s.full || 2 ^ (64 : Nat) ≤ s.digits * 10 + digit then { s with full := true }
  else { s with digits := s.digits * 10 + digit, power := s.power - 1 }

/-- The digits in front of the point. -/
def ofWhole (digits : List UInt8) : Significand :=
  digits.foldl (fun s b => s.takeWhole (digitValue b)) ⟨0, 0, false⟩

/-- Adds the digits behind the point, which are looked at on their own. -/
def addFraction (s : Significand) (digits : List UInt8) : Significand :=
  digits.foldl (fun s b => s.takeFraction (digitValue b)) { s with full := false }

end Significand

/-- The greatest power of ten that is a floating-point number. -/
def greatestPower : Nat := 308

/-- A power of ten as a floating-point number. -/
def tenTo? (power : Nat) : Option Binary64 := Binary64.ofNat? (10 ^ power)

/-- A floating-point number times a power of ten. A power that is too small is approached by dividing by
the greatest one, at most this many times; a number below 2⁶⁴ has vanished after two times. -/
def scaleWithin? : Nat → Binary64 → Int → Option Binary64
  | limit, x, power =>
    if power.natAbs ≤ greatestPower then do
      let ten ← tenTo? power.natAbs
      if 0 ≤ power then x.mul? ten else x.div? ten
    else if x.mantissa = 0 then some x
    else if 0 ≤ power then none
    else
      match limit with
      | 0 => some Binary64.zero
      | limit + 1 => do
        let ten ← tenTo? greatestPower
        let x ← x.div? ten
        scaleWithin? limit x (power + greatestPower)

/-- A floating-point number below 2⁶⁴ times a power of ten. -/
def scale? (x : Binary64) (power : Int) : Option Binary64 := scaleWithin? 2 x power

/-- The digits of an exponent as a number, unless it has more than 31 binary digits. -/
def smallExponent? (digits : List UInt8) : Option Nat :=
  let n := digits.foldl (fun n b => min (2 ^ (31 : Nat)) (n * 10 + digitValue b)) 0
  if n < 2 ^ (31 : Nat) then some n else none

/-- The number that the parts stand for. -/
def NumberParts.number? (parts : NumberParts) : Option Number :=
  let whole := Significand.ofWhole parts.whole
  match parts.fraction, parts.exponent with
  | none, none =>
    if whole.full then do
      let x ← Binary64.ofNat? whole.digits
      (scale? x whole.power).map (.real parts.minus)
    else if !parts.minus then some (.natural whole.digits)
    else if 0 < whole.digits ∧ whole.digits ≤ 2 ^ (63 : Nat) then some (.negative whole.digits)
    else (Binary64.ofNat? whole.digits).map (.real true)
  | fraction, exponent => do
    let s := whole.addFraction (fraction.getD [])
    let x ← Binary64.ofNat? s.digits
    match exponent with
    | none => (scale? x s.power).map (.real parts.minus)
    | some (below, digits) =>
      match smallExponent? digits with
      | some n => (scale? x (if below then s.power - n else s.power + n)).map (.real parts.minus)
      | none =>
        if s.digits ≠ 0 ∧ !below then none else some (.real parts.minus Binary64.zero)

/-- Reads a number. -/
def readNumber? (bytes : List UInt8) : Option (Number × List UInt8) := do
  let (parts, rest) ← numberParts? bytes
  let number ← parts.number?
  some (number, rest)

/-- Skips a number. -/
def skipNumber? (bytes : List UInt8) : Option (List UInt8) :=
  (numberParts? bytes).map (·.2)

end MiningPool.Json
