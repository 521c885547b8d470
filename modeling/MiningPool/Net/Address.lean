/-
Module: MiningPool.Net.Address
Purpose: Internet addresses and their text.
Main exports: IpAddress, IpAddress.parse?, IpAddress.text, IpAddress.socketText
-/
import MiningPool.Bytes

/-!
An address of version 4 is written as four decimal numbers without leading zeros. One of version 6 is
written as eight groups of at most four hexadecimal digits; `::` stands once for one or more groups of
zeros, and the last two groups may be written as an address of version 4.

There is one text for every address: lower-case digits without leading zeros, with `::` in place of the
first of the longest runs of at least two zero groups. An address of version 4 inside version 6 keeps its
decimal form.
-/

namespace MiningPool

/-- An Internet address, its bytes from the left. -/
inductive IpAddress where
  | v4 (bytes : FixedBytes 4)
  | v6 (bytes : FixedBytes 16)
deriving DecidableEq

namespace IpAddress

/-! ### Reading -/

/-- The value of a digit in a base of at most sixteen. -/
def digit? (base : Nat) (c : Char) : Option Nat :=
  let value? : Option Nat :=
    if '0' ≤ c ∧ c ≤ '9' then some (c.toNat - 48)
    else if 'a' ≤ c ∧ c ≤ 'f' then some (c.toNat - 87)
    else if 'A' ≤ c ∧ c ≤ 'F' then some (c.toNat - 55)
    else none
  value?.filter (· < base)

/-- Splits a number off that has at least one digit and at most this many. -/
def readNumber? (base most : Nat) (text : List Char) : Option (List Nat × List Char) :=
  let digits := (text.takeWhile fun c => (digit? base c).isSome).filterMap (digit? base)
  if digits.isEmpty || most < digits.length then none
  else some (digits, text.drop digits.length)

/-- The value of digits, the first one being the greatest. -/
def value (base : Nat) (digits : List Nat) : Nat := digits.foldl (fun n d => n * base + d) 0

/-- Splits a decimal number below 256 off. -/
def readOctet? (text : List Char) : Option (Nat × List Char) :=
  match readNumber? 10 3 text with
  | some (0 :: _ :: _, _) => none
  | some (digits, rest) => if value 10 digits < 256 then some (value 10 digits, rest) else none
  | none => none

/-- Splits four decimal numbers off. -/
def readOctets? (text : List Char) : Option (List Nat × List Char) := do
  let (a, rest) ← readOctet? text
  let '.' :: rest := rest | none
  let (b, rest) ← readOctet? rest
  let '.' :: rest := rest | none
  let (c, rest) ← readOctet? rest
  let '.' :: rest := rest | none
  let (d, rest) ← readOctet? rest
  some ([a, b, c, d], rest)

/-- Groups that have been read. -/
structure Groups where
  groups : List Nat
  /-- Whether the last two of them were written as decimal numbers. -/
  decimal : Bool
  rest : List Char

/-- Splits off at most `left` groups; all but the first stand behind a colon. -/
def readGroups : (left : Nat) → (first : Bool) → List Char → Groups
  | 0, _, text => ⟨[], false, text⟩
  | left + 1, first, text =>
    let inner? : Option (List Char) :=
      match first, text with
      | true, text => some text
      | false, ':' :: rest => some rest
      | false, _ => none
    match inner? with
    | none => ⟨[], false, text⟩
    | some inner =>
      match (if left = 0 then none else readOctets? inner) with
      | some ([a, b, c, d], rest) => ⟨[a * 256 + b, c * 256 + d], true, rest⟩
      | _ =>
        match readNumber? 16 4 inner with
        | none => ⟨[], false, text⟩
        | some (digits, rest) =>
          let further := readGroups left false rest
          { further with groups := value 16 digits :: further.groups }

/-- The eight groups of an address and the characters behind them. -/
def readAllGroups? (text : List Char) : Option (List Nat × List Char) :=
  let front := readGroups 8 true text
  if front.groups.length = 8 then some (front.groups, front.rest)
  else if front.decimal then none
  else
    match front.rest with
    | ':' :: ':' :: rest =>
      let back := readGroups (7 - front.groups.length) true rest
      let zeros := 8 - front.groups.length - back.groups.length
      some (front.groups ++ List.replicate zeros 0 ++ back.groups, back.rest)
    | _ => none

/-- Reads an address. -/
def parse? (text : String) : Option IpAddress :=
  match readOctets? text.toList with
  | some (octets, []) => (FixedBytes.ofList? 4 (octets.map UInt8.ofNat)).map v4
  | some (_, _ :: _) => none
  | none =>
    match readAllGroups? text.toList with
    | some (groups, []) => (FixedBytes.ofList? 16 (groups.flatMap (fixedBE 2))).map v6
    | _ => none

/-! ### Text -/

/-- Four decimal numbers. -/
def octetsText (bytes : List UInt8) : String :=
  ".".intercalate (bytes.map fun b => toString b.toNat)

/-- The groups of two bytes. -/
def groupsOf (bytes : FixedBytes 16) : List Nat :=
  (List.range 8).map fun i => natBE ((bytes.toList.drop (2 * i)).take 2)

/-- Groups with colons between them. -/
def groupsText (groups : List Nat) : String :=
  ":".intercalate (groups.map fun group => String.ofList (Nat.toDigits 16 group))

/-- The number of zeros in front. -/
def leadingZeros (groups : List Nat) : Nat := (groups.takeWhile (· = 0)).length

/-- Where the first of the longest runs of zeros begins, and its length. -/
def longestZeros (groups : List Nat) : Nat × Nat :=
  (List.range groups.length).foldl
    (fun best start =>
      let length := leadingZeros (groups.drop start)
      if best.2 < length then (start, length) else best)
    (0, 0)

/-- The text of an address. -/
def text : IpAddress → String
  | v4 bytes => octetsText bytes.toList
  | v6 bytes =>
    let groups := groupsOf bytes
    if groups.take 6 = [0, 0, 0, 0, 0, 0xffff] then "::ffff:" ++ octetsText (bytes.toList.drop 12)
    else
      let (start, length) := longestZeros groups
      if 1 < length then
        groupsText (groups.take start) ++ "::" ++ groupsText (groups.drop (start + length))
      else groupsText groups

/-- The text of an address with a port. -/
def socketText (address : IpAddress) (port : Nat) : String :=
  match address with
  | v4 _ => address.text ++ s!":{port}"
  | v6 _ => "[" ++ address.text ++ s!"]:{port}"

end IpAddress

end MiningPool
