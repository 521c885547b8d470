/-
Module: MiningPool.Json.Record
Purpose: reading JSON into records with known fields.
Main exports: Json.RecordForm, Json.RecordParts, Json.parseRecord, Json.RecordFault
-/
import MiningPool.Json.Reader

/-!
A record is an object whose keys are the names of its fields, or an array with the values of its fields in
order. Keys that name no field are skipped with their values; no field may be given twice, and none but
the last ones may be missing from an array.

A text that is no JSON and a text of the wrong shape are different faults. The text is read once from left
to right, and the first fault of either kind is the one that is reported; that a field is missing shows at
the end of the record, and what follows the record is looked at last.
-/

namespace MiningPool.Json

/-- Why a text is not the record that was expected. -/
inductive RecordFault where
  /-- It is not JSON. -/
  | malformed
  /-- It is JSON of another shape, at least up to the place where that shows. -/
  | mismatched
deriving Repr, DecidableEq

/-- The fields of a record and how the value of each is read into the record. -/
structure RecordForm (σ : Type) where
  names : List String
  read : String → σ → List UInt8 → Except RecordFault (σ × List UInt8)

/-- What has been read of a record. -/
structure RecordParts (σ : Type) where
  values : σ
  /-- The names of the fields that were given. -/
  present : List String
  /-- Whether the record was given as an array. -/
  positional : Bool

/-- The fault of a value that is not of the expected kind. -/
def wrongKind (bytes : List UInt8) : RecordFault :=
  match skipBlank bytes with
  | [] => .malformed
  | b :: rest =>
    if b = 0x5b || b = 0x7b then .mismatched
    else if (readScalar? (b :: rest)).isSome then .mismatched
    else .malformed

/-- The bytes behind a colon. -/
def afterColon (bytes : List UInt8) : Except RecordFault (List UInt8) :=
  match skipBlank bytes with
  | 0x3a :: rest => .ok rest
  | _ => .error .malformed

namespace RecordForm

variable {σ : Type}

/-- Reads the value of a key into the record, or skips it. -/
def readMember (form : RecordForm σ) (key : String) (parts : RecordParts σ) (bytes : List UInt8) :
    Except RecordFault (RecordParts σ × List UInt8) :=
  if key ∈ form.names then
    if key ∈ parts.present then .error .mismatched
    else do
      let bytes ← afterColon bytes
      let (values, rest) ← form.read key parts.values bytes
      .ok ({ parts with values, present := key :: parts.present }, rest)
  else do
    let bytes ← afterColon bytes
    match skipValue? bytes with
    | some rest => .ok (parts, rest)
    | none => .error .malformed

/-- The bytes behind what separates two members or items; nothing separates the first from the
bracket. -/
def afterComma (first : Bool) (bytes : List UInt8) : Except RecordFault (List UInt8) :=
  if first then .ok bytes
  else
    match bytes with
    | 0x2c :: rest => .ok (skipBlank rest)
    | _ => .error .malformed

/-- Reads members up to the end of the object, in at most `limit` steps. -/
def readMembers (form : RecordForm σ) :
    (limit : Nat) → (first : Bool) → RecordParts σ → List UInt8 →
      Except RecordFault (RecordParts σ × List UInt8)
  | 0, _, _, _ => .error .malformed
  | limit + 1, first, parts, bytes =>
    match skipBlank bytes with
    | 0x7d :: rest => .ok (parts, rest)
    | bytes =>
      match afterComma first bytes with
      | .error fault => .error fault
      | .ok (0x22 :: rest) =>
        match readString? rest with
        | none => .error .malformed
        | some (key, rest) =>
          match form.readMember key parts rest with
          | .error fault => .error fault
          | .ok (parts, rest) => form.readMembers limit false parts rest
      | .ok _ => .error .malformed

/-- Reads the items of an array as the named fields, up to the last field or the end of the array. -/
def readItems (form : RecordForm σ) :
    (names : List String) → (first : Bool) → RecordParts σ → List UInt8 →
      Except RecordFault (RecordParts σ × List UInt8)
  | [], _, parts, bytes =>
    match skipBlank bytes with
    | 0x5d :: rest => .ok (parts, rest)
    | _ => .error .malformed
  | name :: names, first, parts, bytes =>
    match skipBlank bytes with
    | 0x5d :: rest => .ok (parts, rest)
    | bytes =>
      match afterComma first bytes with
      | .error fault => .error fault
      | .ok bytes =>
        match form.read name parts.values bytes with
        | .error fault => .error fault
        | .ok (values, rest) =>
          form.readItems names false { parts with values, present := name :: parts.present } rest

/-- Reads a record that begins with the given values. -/
def read? (form : RecordForm σ) (start : σ) (bytes : List UInt8) :
    Except RecordFault (RecordParts σ × List UInt8) :=
  match skipBlank bytes with
  | 0x7b :: rest => form.readMembers (rest.length + 1) true ⟨start, [], false⟩ rest
  | 0x5b :: rest => form.readItems form.names true ⟨start, [], true⟩ rest
  | _ => .error (wrongKind bytes)

end RecordForm

/-- Reads a text that holds one record; `finish` looks at what is missing. -/
def parseRecord {σ α : Type} (form : RecordForm σ) (start : σ) (finish : RecordParts σ → Option α)
    (bytes : List UInt8) : Except RecordFault α := do
  let (parts, rest) ← form.read? start bytes
  match finish parts with
  | none => .error .mismatched
  | some value => if (skipBlank rest).isEmpty then .ok value else .error .malformed

/-! ### Values of fields -/

/-- Reads any value inside a record. -/
def readField (bytes : List UInt8) : Except RecordFault (Json × List UInt8) :=
  match readValue? (depthLimit - 1) bytes with
  | some result => .ok result
  | none => .error .malformed

/-- Reads a string inside a record. -/
def readStringField (bytes : List UInt8) : Except RecordFault (String × List UInt8) :=
  match skipBlank bytes with
  | 0x22 :: rest =>
    match readString? rest with
    | some result => .ok result
    | none => .error .malformed
  | _ => .error (wrongKind bytes)

end MiningPool.Json
