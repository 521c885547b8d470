/-
Module: MiningPool.Settings.Json
Purpose: reading settings from JSON.
Main exports: Settings.ofJson
-/
import MiningPool.Json.Record
import MiningPool.Number.Power
import MiningPool.Settings.Basic

/-!
Settings are a record whose fields are their keys. Values have to be of the kind of the setting: a number is
no string, and a number with a fraction is no natural number. A named value is a string, or an object with
the name as its only key and null as the value.

An array holds the values in the order of the settings. Only values that have a usual one may be missing at
its end, so it has to reach the last setting that may hold a file name.
-/

namespace MiningPool

namespace SettingKind

/-- A natural number of so many bits. -/
def naturalOfJson? (bits : Nat) : Json → Option Nat
  | .number (.natural n) => if n < 2 ^ bits then some n else none
  | _ => none

/-- A string. -/
def stringOfJson? : Json → Option String
  | .string value => some value
  | _ => none

/-- A value that may be null. -/
def optionalOfJson? {α : Type} (read : Json → Option α) : Json → Option (Option α)
  | .null => some none
  | value => (read value).map some

/-- Reads the name of a choice. -/
def readChoiceName (bytes : List UInt8) : Except Json.RecordFault (String × List UInt8) :=
  match Json.skipBlank bytes with
  | 0x7b :: rest =>
    match Json.readKey? rest with
    | none => .error .mismatched
    | some (name, rest) =>
      match (Json.skipBlank rest : List UInt8) with
      | 0x6e :: rest =>
        match Json.afterWord? Json.nullTail rest with
        | none => .error .malformed
        | some rest =>
          match Json.skipBlank rest with
          | 0x7d :: rest => .ok (name, rest)
          | _ => .error .mismatched
      | _ => .error .mismatched
  | _ => Json.readStringField bytes

/-- Reads a choice. -/
def readChoice {α : Type} [Choice α] (bytes : List UInt8) : Except Json.RecordFault (α × List UInt8) := do
  let (name, rest) ← readChoiceName bytes
  match Choice.named? name with
  | some value => .ok (value, rest)
  | none => .error .mismatched

/-- Reads a value that is looked at as a whole. -/
def readWhole {α : Type} (ofJson? : Json → Option α) (bytes : List UInt8) :
    Except Json.RecordFault (α × List UInt8) := do
  let (value, rest) ← Json.readField bytes
  match ofJson? value with
  | some value => .ok (value, rest)
  | none => .error .mismatched

/-- Reads a value of a kind. -/
def readJson : (kind : SettingKind) → List UInt8 → Except Json.RecordFault (kind.Value × List UInt8)
  | flag => readWhole fun
    | .bool value => some value
    | _ => none
  | natural bits => readWhole (naturalOfJson? bits)
  | optionalNatural bits => readWhole (optionalOfJson? (naturalOfJson? bits))
  | naturals bits => readWhole fun
    | .array items => items.mapM (naturalOfJson? bits)
    | _ => none
  | text => readWhole stringOfJson?
  | path => readWhole stringOfJson?
  | optionalPath => readWhole (optionalOfJson? stringOfJson?)
  | level => readChoice
  | format => readChoice
  | policy => readChoice

end SettingKind

namespace Settings

/-- How settings are read. -/
def jsonForm : Json.RecordForm GivenSettings where
  names := Setting.all.map (·.key)
  read key given bytes :=
    match Setting.ofKey? key with
    | none => .error .mismatched
    | some setting => do
      let (value, rest) ← setting.kind.readJson bytes
      .ok (given.set setting value, rest)

/-- Whether an array may not end in front of a setting. -/
def isDemanded (setting : Setting) : Bool := setting.kind = .optionalPath

/-- Everything that has been read, if it may end here. -/
def finishJson (parts : Json.RecordParts GivenSettings) : Option GivenSettings :=
  if !parts.positional || Setting.all.all fun s => !isDemanded s || s.key ∈ parts.present then
    some parts.values
  else none

/-- The settings that a JSON text gives. -/
def ofJson (text : List UInt8) : Except Error GivenSettings :=
  (Json.parseRecord jsonForm GivenSettings.empty finishJson text).mapError fun _ => .unreadableJson

end Settings

end MiningPool
