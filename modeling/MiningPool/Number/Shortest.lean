/-
Module: MiningPool.Number.Shortest
Purpose: the fewest decimal digits that name a floating-point number.
Main exports: Decimal, Binary64.shortest
-/
import MiningPool.Number.Binary64
import MiningPool.Number.Power

/-!
A decimal names a number if the number is the one nearest to it. For one digit, two digits and so on, the
two decimals next to the number on the grid of that many digits are tried; the first grid with a hit
wins, and of two hits the nearer one.
-/

namespace MiningPool

/-- The value `digits * 10 ^ exponent`. -/
structure Decimal where
  digits : Nat
  exponent : Int
deriving Repr, DecidableEq

/-- Takes zeros off the end of the digits, at most this many. -/
def Decimal.trim : Nat → Decimal → Decimal
  | 0, decimal => decimal
  | limit + 1, decimal =>
    if decimal.digits % 10 = 0 ∧ decimal.digits ≠ 0 then
      trim limit ⟨decimal.digits / 10, decimal.exponent + 1⟩
    else decimal

namespace Binary64

/-- The values that a number is the nearest one to, in quarters of its last binary place. The ends
belong to it if its integer is even. -/
structure Interval where
  low : Nat
  value : Nat
  high : Nat
  closed : Bool
  /-- The power of two that a quarter stands for. -/
  exponent : Int

/-- The interval of a number. Below a power of two the numbers lie closer together. -/
def interval (x : Binary64) : Interval where
  low := 4 * x.mantissa - (if x.mantissa = 2 ^ (52 : Nat) ∧ leastExponent < x.exponent then 1 else 2)
  value := 4 * x.mantissa
  high := 4 * x.mantissa + 2
  closed := x.mantissa % 2 = 0
  exponent := x.exponent - 2

/-- An interval in which quarters and powers of ten are whole numbers of one unit: the three points and
the power of ten. -/
def Interval.onGrid (i : Interval) (power : Int) : Nat × Nat × Nat × Nat :=
  let scale := 2 ^ i.exponent.toNat * 10 ^ (-power).toNat
  let ten := 10 ^ power.toNat * 2 ^ (-i.exponent).toNat
  (i.low * scale, i.value * scale, i.high * scale, ten)

/-- The best decimal with this power of ten among the two next to the value. -/
def Interval.hit? (i : Interval) (power : Int) : Option Decimal :=
  let (low, value, high, ten) := i.onGrid power
  let inside (digits : Nat) : Bool :=
    let point := digits * ten
    (low < point && point < high) || (i.closed && (point = low || point = high))
  let below := value / ten
  let above := below + 1
  let nearerAbove : Bool := above * ten - value < value - below * ten
  if inside below && !(inside above && nearerAbove) then some ⟨below, power⟩
  else if inside above then some ⟨above, power⟩
  else none

/-- Tries powers of ten from `power` downwards, at most this many. -/
def Interval.search (i : Interval) : Nat → Int → Option Decimal
  | 0, _ => none
  | limit + 1, power =>
    match i.hit? power with
    | some decimal => some decimal
    | none => i.search limit (power - 1)

/-- A power of ten that is not below the number and at most a few places above it. -/
def powerAbove (x : Binary64) : Int :=
  ((x.mantissa.log2 : Int) + x.exponent + 1) * 30103 / 100000 + 1

/-- The fewest digits that name the number. -/
def shortest (x : Binary64) : Decimal :=
  if x.mantissa = 0 then ⟨0, 0⟩
  else
    match x.interval.search 24 x.powerAbove with
    | some decimal => decimal.trim 24
    | none => ⟨x.numerator, 0⟩

end Binary64

end MiningPool
