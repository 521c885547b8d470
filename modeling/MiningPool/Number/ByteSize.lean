/-
Module: MiningPool.Number.ByteSize
Purpose: numbers of bytes in units that suit them.
Main exports: byteSizeText
-/
import MiningPool.Number.Binary64

/-!
A number of bytes is taken as a floating-point number and divided by 1024 until it is below 1024 or the
greatest unit is reached. Bytes themselves are written exactly, and larger units with two decimal places.
-/

namespace MiningPool

/-- Units of bytes beyond the byte, each 1024 times the one before. -/
def byteUnits : List String := ["KB", "MB", "GB", "TB"]

/-- The quotient in the greatest of the units that fits, where `unit` is the next smaller one. -/
def inByteUnits (numerator denominator : Nat) (unit : String) : List String → String
  | [] => Binary64.fixedText 2 numerator denominator ++ " " ++ unit
  | next :: rest =>
    if numerator < 1024 * denominator then Binary64.fixedText 2 numerator denominator ++ " " ++ unit
    else inByteUnits numerator (denominator * 1024) next rest

/-- A number of bytes in words. -/
def byteSizeText (bytes : Nat) : String :=
  match Binary64.ofNat? bytes, byteUnits with
  | some size, unit :: units =>
    if size.numerator < 1024 * size.denominator then s!"{bytes} B"
    else inByteUnits size.numerator (size.denominator * 1024) unit units
  | _, _ => s!"{bytes} B"

end MiningPool
