/-
Module: MiningPool.Json.Basic
Purpose: JSON values and their compact text.
Main exports: Json, Json.Number, Json.text
-/
import MiningPool.Number.Shortest

/-!
Integers that fit into 64 bits stay integers; every other number is a floating-point number. The members
of an object are in the order of their keys, each key once.

The compact text has no blanks. A floating-point number is written with the fewest digits that name it,
in plain decimal notation from 10⁻⁵ up to below 10¹⁶ and with an exponent otherwise. Strings escape the
quote, the backslash and control characters, and nothing else.
-/

namespace MiningPool

namespace Json

/-- A number. -/
inductive Number where
  | natural (n : Nat)
  /-- The integer `-n`, for a positive `n`. -/
  | negative (n : Nat)
  | real (minus : Bool) (magnitude : Binary64)
deriving Repr, DecidableEq

end Json

/-- A JSON value. -/
inductive Json where
  | null
  | bool (value : Bool)
  | number (value : Json.Number)
  | string (value : String)
  | array (items : List Json)
  | object (members : List (String × Json))
deriving Repr, Inhabited

namespace Json

/-- Sets a member of an object, in the order of keys. -/
def setMember (key : String) (value : Json) : List (String × Json) → List (String × Json)
  | [] => [(key, value)]
  | (other, old) :: rest =>
    if key < other then (key, value) :: (other, old) :: rest
    else if key = other then (key, value) :: rest
    else (other, old) :: setMember key value rest

/-- The members of an object that were given in any order; of equal keys the last one counts. -/
def objectOf (members : List (String × Json)) : Json :=
  .object (members.foldl (fun sorted (key, value) => setMember key value sorted) [])

/-! ### Text -/

/-- The exponents of ten between which numbers are written without one. -/
def plainExponents : Int × Int := (-5, 16)

/-- Digits with a point after the first `whole` of them, and at least one digit on each side. -/
def pointText (digits : List Char) (whole : Int) : String :=
  if whole ≤ 0 then
    "0." ++ String.ofList (List.replicate (-whole).toNat '0' ++ digits)
  else if (digits.length : Int) ≤ whole then
    String.ofList (digits ++ List.replicate (whole.toNat - digits.length) '0') ++ ".0"
  else
    String.ofList (digits.take whole.toNat) ++ "." ++ String.ofList (digits.drop whole.toNat)

/-- Digits with a point after the first one and the exponent of that digit. -/
def scientificText (digits : List Char) (exponent : Int) : String :=
  let sign := if exponent < 0 then "e-" else "e+"
  let power := sign ++ toString exponent.natAbs
  match digits with
  | [] => power
  | [digit] => String.singleton digit ++ power
  | digit :: rest => String.singleton digit ++ "." ++ String.ofList rest ++ power

/-- The text of a non-negative floating-point number. -/
def magnitudeText (x : Binary64) : String :=
  let decimal := x.shortest
  let digits := (toString decimal.digits).toList
  let exponent := decimal.exponent + digits.length - 1
  if decimal.digits = 0 then "0.0"
  else if plainExponents.1 ≤ exponent ∧ exponent < plainExponents.2 then
    pointText digits (exponent + 1)
  else scientificText digits exponent

def Number.text : Number → String
  | natural n => toString n
  | negative n => "-" ++ toString n
  | real minus magnitude => (if minus then "-" else "") ++ magnitudeText magnitude

/-- The characters that stand for one character inside quotes. -/
def escape (c : Char) : List Char :=
  if c = '"' then ['\\', '"']
  else if c = '\\' then ['\\', '\\']
  else if c = '\x08' then ['\\', 'b']
  else if c = '\x0c' then ['\\', 'f']
  else if c = '\n' then ['\\', 'n']
  else if c = '\r' then ['\\', 'r']
  else if c = '\t' then ['\\', 't']
  else if c.toNat < 0x20 then
    ['\\', 'u', '0', '0', Nat.digitChar (c.toNat / 16), Nat.digitChar (c.toNat % 16)]
  else [c]

/-- A text between quotes. -/
def stringText (text : String) : String :=
  "\"" ++ String.ofList (text.toList.flatMap escape) ++ "\""

mutual

/-- The compact text of a value. -/
def text : Json → String
  | null => "null"
  | bool value => if value then "true" else "false"
  | number value => value.text
  | string value => stringText value
  | array items => "[" ++ itemsText items ++ "]"
  | object members => "\x7b" ++ membersText members ++ "\x7d"

def itemsText : List Json → String
  | [] => ""
  | [item] => item.text
  | item :: next :: rest => item.text ++ "," ++ itemsText (next :: rest)

def membersText : List (String × Json) → String
  | [] => ""
  | [(key, value)] => stringText key ++ ":" ++ value.text
  | (key, value) :: next :: rest =>
    stringText key ++ ":" ++ value.text ++ "," ++ membersText (next :: rest)

end

end Json

end MiningPool
