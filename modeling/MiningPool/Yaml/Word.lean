/-
Module: MiningPool.Yaml.Word
Purpose: plain words that are not taken as text.
Main exports: Yaml.isNull, Yaml.bool?, Yaml.natural?, Yaml.isText
-/
import MiningPool.Number.Binary64
import MiningPool.Number.Power
import MiningPool.Number.Unsigned

/-!
A word may stand for nothing, for a truth value or for a number. Integers are decimal, hexadecimal, octal
or binary; decimal ones have no leading zeros. Other numbers have a point or an exponent, and they must not
be too large for a floating-point number. Words of digits with a leading zero are text that looks like a
number.
-/

namespace MiningPool.Yaml

/-- The words for nothing. -/
def isNull (word : String) : Bool := word ∈ ["null", "Null", "NULL", "~"]

/-- The words for truth values. -/
def bool? (word : String) : Option Bool :=
  if word ∈ ["true", "True", "TRUE"] then some true
  else if word ∈ ["false", "False", "FALSE"] then some false
  else none

/-- A word without a plus sign in front. -/
def withoutPlus : List Char → List Char
  | '+' :: rest => rest
  | word => word

/-- A word without a sign in front. -/
def withoutSign : List Char → List Char
  | '+' :: rest => rest
  | '-' :: rest => rest
  | word => word

/-- Whether a sign stands in front. -/
def isSigned : List Char → Bool
  | '+' :: _ => true
  | '-' :: _ => true
  | _ => false

def isDecimal (c : Char) : Bool := '0' ≤ c && c ≤ '9'

/-- Digits with a leading zero. -/
def isPadded (word : List Char) : Bool :=
  match withoutSign word with
  | '0' :: c :: rest => (c :: rest).all isDecimal
  | _ => false

/-- The base that the beginning of a word announces, and the digits behind it. -/
def announced? : List Char → Option (Nat × List Char)
  | '0' :: 'x' :: rest => some (16, rest)
  | '0' :: 'o' :: rest => some (8, rest)
  | '0' :: 'b' :: rest => some (2, rest)
  | _ => none

/-- An integer below a limit. -/
def natural? (limit : Nat) (word : List Char) : Option Nat :=
  let digits := withoutPlus word
  let inBase : Option Nat :=
    match announced? digits with
    | some (base, rest) => if isSigned rest then none else (Unsigned.parse base limit rest).toOption
    | none => none
  match inBase with
  | some n => some n
  | none => if isSigned digits || isPadded word then none else (Unsigned.parse 10 limit digits).toOption

/-- Whether a word is a negative integer that is not below `-limit`. -/
def isNegative (limit : Nat) : List Char → Bool
  | '-' :: rest =>
    let digits : Nat × List Char := (announced? rest).getD (10, rest)
    !isSigned digits.2 && !isPadded rest && (Unsigned.parse digits.1 (limit + 1) digits.2).toOption.isSome
  | _ => false

/-! ### Numbers with a point or an exponent -/

/-- The parts of a decimal number. -/
structure DecimalParts where
  whole : List Char
  fraction : List Char
  exponent : Int

/-- An exponent behind its letter. -/
def exponent? (word : List Char) : Option Int :=
  let digits := withoutSign word
  if digits.isEmpty || !digits.all isDecimal then none
  else
    let n : Nat := digits.foldl (fun n c => n * 10 + (c.toNat - 48)) 0
    some (if word.head? = some '-' then -(n : Int) else n)

/-- Splits a number without a sign into its parts. -/
def decimalParts? (word : List Char) : Option DecimalParts :=
  let whole := word.takeWhile isDecimal
  let rest := word.dropWhile isDecimal
  let (fraction, rest) :=
    match rest with
    | '.' :: rest => (rest.takeWhile isDecimal, rest.dropWhile isDecimal)
    | rest => ([], rest)
  if whole.isEmpty && fraction.isEmpty then none
  else
    match rest with
    | [] => some ⟨whole, fraction, 0⟩
    | c :: rest => if c = 'e' ∨ c = 'E' then (exponent? rest).map (⟨whole, fraction, ·⟩) else none

/-- The exponent of ten beyond which no number is finite. -/
def greatestDecimalExponent : Int := 310

/-- Whether a number is not too large. -/
def DecimalParts.isFinite (parts : DecimalParts) : Bool :=
  let digits := (parts.whole ++ parts.fraction).dropWhile (· == '0')
  let power := parts.exponent - parts.fraction.length
  if digits.isEmpty then true
  else if greatestDecimalExponent < digits.length + power then false
  else if digits.length + power < 0 then true
  else
    let n : Nat := digits.foldl (fun n c => n * 10 + (c.toNat - 48)) 0
    (Binary64.ofRatio? (n * 10 ^ power.toNat) (10 ^ (-power).toNat)).isSome

/-- Whether a word is a number of any kind, except for those with leading zeros. -/
def isReal (word : List Char) : Bool :=
  let text := String.ofList word
  text ∈ [".inf", ".Inf", ".INF", "+.inf", "+.Inf", "+.INF", "-.inf", "-.Inf", "-.INF", ".nan", ".NaN", ".NAN"] ||
    (!(word.head? == some '+' && isSigned (withoutPlus word)) &&
      (decimalParts? (withoutSign word)).any DecimalParts.isFinite)

/-! ### Text -/

/-- The number of bits up to which integers are told from other numbers. -/
def integerBits : Nat := 128

/-- Whether a plain word is taken as text and looks like nothing else. -/
def isText (word : String) : Bool :=
  let chars := word.toList
  !(word.isEmpty || isNull word || (bool? word).isSome || (natural? (2 ^ integerBits) chars).isSome ||
    isNegative (2 ^ (integerBits - 1)) chars || isPadded chars || isReal chars)

end MiningPool.Yaml
