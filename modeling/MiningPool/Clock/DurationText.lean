/-
Module: MiningPool.Clock.DurationText
Purpose: reading durations such as "1h 30m".
Main exports: Duration.parse, DurationFault
-/
import MiningPool.Clock.Basic
import MiningPool.Number.Power
import MiningPool.Text.Blank
import MiningPool.Text.Quoted

/-!
A duration is written as numbers with units. White space may stand anywhere between the digits of a
number and around units, but not inside a unit. A number may have a fraction, provided that the value
comes out whole: in nanoseconds for units up to the minute, in seconds for longer ones. `0` alone needs
no unit.

The text is read one character at a time by `DurationReader.step`. Seconds and intermediate products
must fit into 64 bits. Positions in faults count UTF-8 bytes.
-/

namespace MiningPool

/-- Why a text is no duration. -/
inductive DurationFault where
  /-- There is nothing but white space. -/
  | empty
  /-- No number follows; the position is where the search for it began. -/
  | numberExpected (position : Nat)
  | invalidCharacter (position : Nat)
  /-- The text after the number `value` names no unit; it is empty if nothing stood there. -/
  | unknownUnit (unit : String) (value : Nat)
  /-- The value does not fit or does not come out whole. -/
  | unrepresentable
deriving Repr, DecidableEq

namespace DurationFault

def message : DurationFault → String
  | empty => "value was empty"
  | numberExpected position => s!"expected number at {position}"
  | invalidCharacter position => s!"invalid character at {position}"
  | unknownUnit unit value =>
    if unit.isEmpty then
      "time unit needed, for example " ++ toString value ++ "sec or " ++ toString value ++ "ms"
    else
      "unknown time unit " ++ Text.quoteText unit ++ ", supported units: ns, us/µs, ms, sec, min, " ++
        "hours, days, weeks, months, years (and few variations)"
  | unrepresentable =>
    "number is too large or cannot be represented without a lack of precision (values below 1ns " ++
      "are not supported)"

end DurationFault

/-- A unit of time: the seconds and nanoseconds of one unit, and what a fraction of it is counted in. -/
structure TimeUnit where
  seconds : Nat
  nanoseconds : Nat
  /-- The seconds of one unit, if fractions are counted in seconds. -/
  fractionSeconds : Nat
  /-- The nanoseconds of one unit, if fractions are counted in nanoseconds. -/
  fractionNanoseconds : Nat
deriving Repr, DecidableEq

namespace TimeUnit

/-- A unit below the second. -/
def subsecond (nanoseconds : Nat) : TimeUnit :=
  ⟨0, nanoseconds, 0, nanoseconds⟩

/-- A unit of seconds whose fractions are counted in nanoseconds. -/
def fine (seconds : Nat) : TimeUnit := ⟨seconds, 0, 0, seconds * 1000000000⟩

/-- A unit of seconds whose fractions are counted in seconds. -/
def coarse (seconds : Nat) : TimeUnit := ⟨seconds, 0, seconds, 0⟩

/-- The nanosecond, the only unit without fractions. -/
def nanosecond : TimeUnit := ⟨0, 1, 0, 0⟩

/-- The unit of a name. A month is a twelfth and a year the whole of 365.25 days. -/
def named? (name : String) : Option TimeUnit :=
  if name ∈ ["nanos", "nsec", "ns"] then some nanosecond
  else if name ∈ ["usec", "us", "µs"] then some (subsecond 1000)
  else if name ∈ ["millis", "msec", "ms"] then some (subsecond 1000000)
  else if name ∈ ["seconds", "second", "secs", "sec", "s"] then some (fine 1)
  else if name ∈ ["minutes", "minute", "min", "mins", "m"] then some (fine 60)
  else if name ∈ ["hours", "hour", "hrs", "hr", "h"] then some (coarse 3600)
  else if name ∈ ["days", "day", "d"] then some (coarse 86400)
  else if name ∈ ["weeks", "week", "wk", "wks", "w"] then some (coarse 604800)
  else if name ∈ ["months", "month", "M"] then some (coarse 2630016)
  else if name ∈ ["years", "year", "yr", "yrs", "y"] then some (coarse 31557600)
  else none

end TimeUnit

namespace DurationReader

/-- A number in 64 bits. -/
def word (n : Nat) : Except DurationFault Nat :=
  if n < 2 ^ (64 : Nat) then .ok n else .error .unrepresentable

/-- The digits after the point, as a quotient. -/
structure Fraction where
  numerator : Nat
  denominator : Nat
deriving Repr, DecidableEq

/-- What is being read. -/
inductive Phase where
  /-- Looking for the first digit of a number, since the position `origin`. -/
  | seeking (origin : Nat)
  /-- Inside the whole part of a number. -/
  | whole (n : Nat)
  /-- Inside the fraction; `position` is what a fault would name. -/
  | fraction (n : Nat) (part : Fraction) (position : Nat)
  /-- Inside the name of a unit, whose characters are kept in reverse. -/
  | naming (n : Nat) (part : Option Fraction) (name : List Char)
deriving Repr, DecidableEq

/-- Adds seconds and nanoseconds to a total. -/
def add (total : Duration) (seconds nanoseconds : Nat) : Except DurationFault Duration := do
  let _ ← word (total.subsecond + nanoseconds)
  let sum := total + Duration.ofSeconds seconds + nanoseconds
  let _ ← word sum.seconds
  .ok sum

/-- A fraction of `scale`, if it is whole. -/
def share (part : Fraction) (scale : Nat) : Except DurationFault Nat := do
  let product ← word (part.numerator * scale)
  if product % part.denominator = 0 then .ok (product / part.denominator)
  else .error .unrepresentable

/-- Adds a number of named units to a total. -/
def close (total : Duration) (n : Nat) (part : Option Fraction) (name : List Char) :
    Except DurationFault Duration := do
  let text := String.ofList name.reverse
  match TimeUnit.named? text with
  | none => .error (.unknownUnit text n)
  | some unit =>
    let seconds ← word (n * unit.seconds)
    let nanoseconds ← word (n * unit.nanoseconds)
    let total ← add total seconds nanoseconds
    match part with
    | none => .ok total
    | some part =>
      if unit = TimeUnit.nanosecond then .error .unrepresentable
      else
        let seconds ← share part unit.fractionSeconds
        let nanoseconds ← share part unit.fractionNanoseconds
        add total seconds nanoseconds

/-- The value of a decimal digit. -/
def digit? (c : Char) : Option Nat :=
  if '0' ≤ c ∧ c ≤ '9' then some (c.toNat - 48) else none

/-- A character that may stand in the name of a unit. -/
def isUnitChar (c : Char) : Bool := c.isAlpha || c == 'µ'

/-- Reads the character `c` at a position. -/
def step (total : Duration) (phase : Phase) (position : Nat) (c : Char) :
    Except DurationFault (Duration × Phase) :=
  let next := position + c.utf8Size
  match phase with
  | .seeking origin =>
    match digit? c with
    | some d => .ok (total, .whole d)
    | none => if Text.isBlank c then .ok (total, phase) else .error (.numberExpected origin)
  | .whole n =>
    match digit? c with
    | some d => do .ok (total, .whole (← word (n * 10 + d)))
    | none =>
      if Text.isBlank c then .ok (total, phase)
      else if isUnitChar c then .ok (total, .naming n none [c])
      else if c = '.' then .ok (total, .fraction n ⟨0, 1⟩ position)
      else .error (.invalidCharacter position)
  | .fraction n part fault =>
    match digit? c with
    | some d => do
      let denominator ← word (part.denominator * 10)
      let numerator ← word (part.numerator * 10 + d)
      .ok (total, .fraction n ⟨numerator, denominator⟩ next)
    | none =>
      if Text.isBlank c then .ok (total, .fraction n part next)
      else if isUnitChar c then
        if part.denominator = 1 then .error (.invalidCharacter fault)
        else .ok (total, .naming n (some part) [c])
      else .error (.invalidCharacter fault)
  | .naming n part name =>
    match digit? c with
    | some d => do .ok (← close total n part name, .whole d)
    | none =>
      if Text.isBlank c then do .ok (← close total n part name, .seeking next)
      else if isUnitChar c then .ok (total, .naming n part (c :: name))
      else .error (.invalidCharacter position)

/-- What the end of the text means in a phase; `first` tells whether no number has been read. -/
def finish (total : Duration) (phase : Phase) (first : Bool) : Except DurationFault Duration :=
  match phase with
  | .seeking _ => if first then .error .empty else .ok total
  | .whole n => close total n none []
  | .fraction n part fault =>
    if part.denominator = 1 then .error (.invalidCharacter fault) else close total n (some part) []
  | .naming n part name => close total n part name

/-- Reads the characters from a position on. -/
def read (total : Duration) (phase : Phase) (first : Bool) (position : Nat) :
    List Char → Except DurationFault Duration
  | [] => finish total phase first
  | c :: rest => do
    let (total, phase) ← step total phase position c
    let first := first && (match phase with | .seeking _ => true | _ => false)
    read total phase first (position + c.utf8Size) rest

end DurationReader

/-- The duration that a text spells. -/
def Duration.parse (text : String) : Except DurationFault Duration :=
  if text = "0" then .ok 0
  else DurationReader.read 0 (.seeking 0) true 0 text.toList

end MiningPool
