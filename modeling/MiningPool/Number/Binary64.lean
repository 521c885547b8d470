/-
Module: MiningPool.Number.Binary64
Purpose: non-negative binary floating-point numbers of 64 bits and their arithmetic.
Main exports: roundHalfEven, Binary64, Binary64.ofRatio?
-/

import MiningPool.Number.Power

/-!
A finite number is an integer below 2⁵³ times a power of two. Every operation gives the representable
number nearest to the exact result, and of two equally near ones the one with the even integer; beyond
the greatest number there is no result.
-/

namespace MiningPool

/-- The integer nearest to a quotient; half-way, the even one. -/
def roundHalfEven (numerator denominator : Nat) : Nat :=
  let quotient := numerator / denominator
  let twice := 2 * (numerator % denominator)
  if twice < denominator then quotient
  else if denominator < twice then quotient + 1
  else quotient + quotient % 2

/-- The number `mantissa * 2 ^ exponent`. -/
structure Binary64 where
  mantissa : Nat
  exponent : Int
deriving Repr, DecidableEq

namespace Binary64

/-- The exponent of the least numbers. -/
def leastExponent : Int := -1074

/-- The exponent of the greatest numbers. -/
def greatestExponent : Int := 971

def zero : Binary64 := ⟨0, leastExponent⟩

/-- The value times `denominator`. -/
def numerator (x : Binary64) : Nat := x.mantissa * 2 ^ x.exponent.toNat

/-- The power of two that clears a negative exponent. -/
def denominator (x : Binary64) : Nat := 2 ^ (-x.exponent).toNat

/-- `numerator / denominator` in units of `2 ^ exponent`, rounded. -/
def roundAt (exponent : Int) (numerator denominator : Nat) : Nat :=
  roundHalfEven (numerator * 2 ^ (-exponent).toNat) (denominator * 2 ^ exponent.toNat)

/-- The exponent at which a quotient has 53 binary digits, if that is not below the least one. -/
def exponentOf (numerator denominator : Nat) : Int :=
  let guess : Int := (numerator.log2 : Int) - denominator.log2 - 52
  let exponent :=
    if numerator * 2 ^ (-guess).toNat < 2 ^ (52 : Nat) * (denominator * 2 ^ guess.toNat) then guess - 1
    else guess
  max exponent leastExponent

/-- The number nearest to a quotient, unless it lies beyond the greatest one. -/
def ofRatio? (numerator denominator : Nat) : Option Binary64 :=
  if numerator = 0 then some zero
  else
    let exponent := exponentOf numerator denominator
    let mantissa := roundAt exponent numerator denominator
    let (mantissa, exponent) :=
      if mantissa = 2 ^ (53 : Nat) then (2 ^ (52 : Nat), exponent + 1) else (mantissa, exponent)
    if exponent ≤ greatestExponent then some ⟨mantissa, exponent⟩ else none

/-- The number nearest to an integer. -/
def ofNat? (n : Nat) : Option Binary64 := ofRatio? n 1

/-- The number nearest to a product. -/
def mul? (x y : Binary64) : Option Binary64 :=
  ofRatio? (x.numerator * y.numerator) (x.denominator * y.denominator)

/-- The number nearest to a quotient. -/
def div? (x y : Binary64) : Option Binary64 :=
  ofRatio? (x.numerator * y.denominator) (x.denominator * y.numerator)

/-- The number nearest to a tenth. -/
def tenth : Binary64 := ⟨7205759403792794, -56⟩

example : ofRatio? 1 10 = some tenth := by decide

/-- The whole part. -/
def floor (x : Binary64) : Nat := x.numerator / x.denominator

/-- The value with a number of decimal places, half-way to the even last digit. -/
def fixedText (places : Nat) (numerator denominator : Nat) : String :=
  let scaled := roundHalfEven (numerator * 10 ^ places) denominator
  let fraction := toString (scaled % 10 ^ places)
  toString (scaled / 10 ^ places) ++ "." ++
    String.ofList (List.replicate (places - fraction.length) '0') ++ fraction

end Binary64

end MiningPool
