/-
Module: MiningPool.Json.Reader
Purpose: reading JSON values from bytes.
Main exports: Json.readValue?, Json.skipValue?, Json.parse?
-/
import MiningPool.Json.Token

/-!
Values are read one inside the other down to a depth that is part of the format. A value that nobody is
interested in can be skipped instead; then only its form matters, and it may be nested to any depth.
-/

namespace MiningPool.Json

/-- How many arrays and objects may contain a value, itself included. -/
def depthLimit : Nat := 127

/-- The letters of the words behind their first letter. -/
def nullTail : List UInt8 := [0x75, 0x6c, 0x6c]

def trueTail : List UInt8 := [0x72, 0x75, 0x65]

def falseTail : List UInt8 := [0x61, 0x6c, 0x73, 0x65]

/-- Reads a value that is neither an array nor an object; nothing if no such value begins here. -/
def readScalar? (bytes : List UInt8) : Option (Json × List UInt8) :=
  match bytes with
  | [] => none
  | b :: rest =>
    if b = 0x22 then (readString? rest).map fun (text, rest) => (.string text, rest)
    else if b = 0x6e then (afterWord? nullTail rest).map (.null, ·)
    else if b = 0x74 then (afterWord? trueTail rest).map (.bool true, ·)
    else if b = 0x66 then (afterWord? falseTail rest).map (.bool false, ·)
    else if b = 0x2d || isDigit b then
      (readNumber? (b :: rest)).map fun (value, rest) => (.number value, rest)
    else none

/-- Reads a key and the colon behind it. -/
def readKey? (bytes : List UInt8) : Option (String × List UInt8) :=
  match skipBlank bytes with
  | 0x22 :: rest => do
    let (key, rest) ← readString? rest
    match skipBlank rest with
    | 0x3a :: rest => some (key, rest)
    | _ => none
  | _ => none

mutual

/-- Reads a value with at most `depth` arrays and objects around its innermost part, in at most `limit`
steps. -/
def readValueWithin? (limit depth : Nat) (bytes : List UInt8) : Option (Json × List UInt8) :=
  match limit with
  | 0 => none
  | limit + 1 =>
    match skipBlank bytes, depth with
    | 0x5b :: _, 0 => none
    | 0x7b :: _, 0 => none
    | 0x5b :: rest, depth + 1 =>
      match skipBlank rest with
      | 0x5d :: rest => some (.array [], rest)
      | rest => readItems? limit depth [] rest
    | 0x7b :: rest, depth + 1 =>
      match skipBlank rest with
      | 0x7d :: rest => some (.object [], rest)
      | rest => readMembers? limit depth [] rest
    | bytes, _ => readScalar? bytes

/-- Reads the items of an array up to its end; the items read so far are in reverse. -/
def readItems? (limit depth : Nat) (done : List Json) (bytes : List UInt8) :
    Option (Json × List UInt8) :=
  match limit with
  | 0 => none
  | limit + 1 =>
    match readValueWithin? limit depth bytes with
    | none => none
    | some (item, rest) =>
      match skipBlank rest with
      | 0x2c :: rest => readItems? limit depth (item :: done) rest
      | 0x5d :: rest => some (.array (item :: done).reverse, rest)
      | _ => none

/-- Reads the members of an object up to its end; the members read so far are in reverse. -/
def readMembers? (limit depth : Nat) (done : List (String × Json)) (bytes : List UInt8) :
    Option (Json × List UInt8) :=
  match limit with
  | 0 => none
  | limit + 1 =>
    match readKey? bytes with
    | none => none
    | some (key, rest) =>
      match readValueWithin? limit depth rest with
      | none => none
      | some (value, rest) =>
        match skipBlank rest with
        | 0x2c :: rest => readMembers? limit depth ((key, value) :: done) rest
        | 0x7d :: rest => some (objectOf ((key, value) :: done).reverse, rest)
        | _ => none

end

/-- Reads a value with at most `depth` arrays and objects around its innermost part. -/
def readValue? (depth : Nat) (bytes : List UInt8) : Option (Json × List UInt8) :=
  readValueWithin? (2 * bytes.length + 2) depth bytes

/-- Reads a text that holds one value and blanks. -/
def parse? (bytes : List UInt8) : Option Json :=
  match readValue? depthLimit bytes with
  | some (value, rest) => if (skipBlank rest).isEmpty then some value else none
  | none => none

/-! ### Skipping -/

/-- What is open around the place that is looked at. -/
inductive Bracket where
  | array
  | object
deriving Repr, DecidableEq

/-- What may stand at the place that is looked at. -/
inductive Expected where
  /-- A value. -/
  | value
  /-- The first item or member, or the closing bracket. -/
  | opening
  /-- A comma or the closing bracket. -/
  | closing
deriving Repr, DecidableEq

/-- Skips a value that is neither an array nor an object. -/
def skipScalar? (bytes : List UInt8) : Option (List UInt8) :=
  match bytes with
  | [] => none
  | b :: rest =>
    if b = 0x22 then skipString? rest
    else if b = 0x6e then afterWord? nullTail rest
    else if b = 0x74 then afterWord? trueTail rest
    else if b = 0x66 then afterWord? falseTail rest
    else if b = 0x2d || isDigit b then skipNumber? (b :: rest)
    else none

/-- Skips a key and the colon behind it. -/
def skipKey? (bytes : List UInt8) : Option (List UInt8) :=
  match skipBlank bytes with
  | 0x22 :: rest =>
    match skipString? rest with
    | none => none
    | some rest =>
      match skipBlank rest with
      | 0x3a :: rest => some rest
      | _ => none
  | _ => none

/-- What precedes the next value inside a bracket. -/
def skipLead? : Bracket → List UInt8 → Option (List UInt8)
  | .array, bytes => some bytes
  | .object, bytes => skipKey? bytes

/-- Whether a byte closes a bracket. -/
def closes (bracket : Bracket) (b : UInt8) : Bool :=
  match bracket with
  | .array => b = 0x5d
  | .object => b = 0x7d

/-- Skips the rest of a value inside open brackets, in at most `limit` steps. -/
def skipWithin? (limit : Nat) (openBrackets : List Bracket) (expected : Expected)
    (bytes : List UInt8) : Option (List UInt8) :=
  match limit with
  | 0 => none
  | limit + 1 =>
    match expected, openBrackets, skipBlank bytes with
    | .value, brackets, 0x5b :: rest => skipWithin? limit (.array :: brackets) .opening rest
    | .value, brackets, 0x7b :: rest => skipWithin? limit (.object :: brackets) .opening rest
    | .value, brackets, bytes =>
      match skipScalar? bytes with
      | none => none
      | some rest => if brackets.isEmpty then some rest else skipWithin? limit brackets .closing rest
    | _, [], _ => none
    | _, _ :: _, [] => none
    | .opening, bracket :: brackets, b :: rest =>
      if closes bracket b then
        if brackets.isEmpty then some rest else skipWithin? limit brackets .closing rest
      else
        match skipLead? bracket (b :: rest) with
        | none => none
        | some rest => skipWithin? limit (bracket :: brackets) .value rest
    | .closing, bracket :: brackets, b :: rest =>
      if closes bracket b then
        if brackets.isEmpty then some rest else skipWithin? limit brackets .closing rest
      else if b = 0x2c then
        match skipLead? bracket rest with
        | none => none
        | some rest => skipWithin? limit (bracket :: brackets) .value rest
      else none

/-- Skips a value. -/
def skipValue? (bytes : List UInt8) : Option (List UInt8) :=
  skipWithin? (2 * bytes.length + 2) [] .value bytes

end MiningPool.Json
