/-
Module: MiningPool.Number.Unsigned
Purpose: reading unsigned integers of a limited size in any base.
Main exports: Unsigned.parse
-/
import MiningPool.Error

/-!
An unsigned integer is written with at least one digit, perhaps behind a plus sign. Digits beyond nine are
letters of either case. The digits are read from the left, and the first one that is no digit, or that
takes the value over the limit, decides the fault.
-/

namespace MiningPool.Unsigned

/-- The value of an ASCII digit or letter in a base. -/
def digit? (base : Nat) (c : Char) : Option Nat :=
  let value? : Option Nat :=
    if '0' ≤ c ∧ c ≤ '9' then some (c.toNat - 48)
    else if 'a' ≤ c ∧ c ≤ 'z' then some (c.toNat - 87)
    else if 'A' ≤ c ∧ c ≤ 'Z' then some (c.toNat - 55)
    else none
  value?.filter (· < base)

/-- Reads further digits. -/
def readDigits (base limit : Nat) (value : Nat) : List Char → Except IntegerFault Nat
  | [] => .ok value
  | c :: rest =>
    match digit? base c with
    | none => .error .invalidDigit
    | some d =>
      if value * base + d < limit then readDigits base limit (value * base + d) rest
      else .error .tooLarge

/-- Reads an integer below a limit. -/
def parse (base limit : Nat) (text : List Char) : Except IntegerFault Nat :=
  match text with
  | [] => .error .empty
  | ['+'] => .error .invalidDigit
  | '+' :: rest => readDigits base limit 0 rest
  | rest => readDigits base limit 0 rest

end MiningPool.Unsigned
