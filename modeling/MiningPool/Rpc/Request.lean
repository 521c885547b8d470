/-
Module: MiningPool.Rpc.Request
Purpose: requests of miners and what they ask for.
Main exports: Rpc.Request, Rpc.Request.parse, Rpc.Request.call, Rpc.parseQuantity
-/
import MiningPool.Json.Record
import MiningPool.Json.Value
import MiningPool.Number.Power
import MiningPool.Number.Unsigned
import MiningPool.Work.Service

/-!
A request names a method, may carry an identifier that is given back with the answer, and may carry
parameters. Three methods are served; two of them take parameters, which must be an array of the right
number of strings. The parameters are read from left to right.
-/

namespace MiningPool.Rpc

/-- What a miner sends. -/
structure Request where
  id : Json
  method : String
  params : Json

/-- The fields that have been read. -/
structure RequestParts where
  id : Option Json
  method : Option String
  params : Option Json

namespace Request

/-- How requests are read. -/
def form : Json.RecordForm RequestParts where
  names := ["id", "method", "params"]
  read name parts bytes :=
    if name = "id" then do
      let (value, rest) ← Json.readField bytes
      .ok ({ parts with id := some value }, rest)
    else if name = "method" then do
      let (text, rest) ← Json.readStringField bytes
      .ok ({ parts with method := some text }, rest)
    else do
      let (value, rest) ← Json.readField bytes
      .ok ({ parts with params := some value }, rest)

/-- Only the method must be given. -/
def finish (parts : Json.RecordParts RequestParts) : Option Request :=
  parts.values.method.map fun method =>
    ⟨parts.values.id.getD .null, method, parts.values.params.getD .null⟩

/-- Reads a request. -/
def parse (body : List UInt8) : Except Json.RecordFault Request :=
  Json.parseRecord form ⟨none, none, none⟩ finish body

end Request

/-! ### Parameters -/

/-- The strings that an array holds, if it holds nothing else. -/
def strings? : List Json → Option (List String)
  | [] => some []
  | .string text :: rest => (strings? rest).map (text :: ·)
  | _ :: _ => none

/-- Parameters that are an array of a number of strings. -/
def stringParams (count : Nat) : Json → Except ParamFault (List String)
  | .array items =>
    if items.length ≠ count then .error (.wrongCount count items.length)
    else
      match strings? items with
      | some texts => .ok texts
      | none => .error .notStrings
  | _ => .error .notAnArray

/-- Reads a quantity of 64 bits: hexadecimal digits behind `0x`. -/
def parseQuantity (text : String) : Except ParamFault Nat :=
  match withoutMark text with
  | none => .error (.unmarkedQuantity text)
  | some digits =>
    match Unsigned.parse 16 (2 ^ (64 : Nat)) digits.toList with
    | .ok value => .ok value
    | .error fault => .error (.quantity text fault)

/-- Reads a nonce. -/
def parseNonce (text : String) : Except ParamFault BlockNonce :=
  match BlockNonce.parse text with
  | .ok nonce => .ok nonce
  | .error fault => .error (.hex fault)

/-- Reads a hash. -/
def parseHash (text : String) : Except ParamFault Hash256 :=
  match FixedBytes.parse 32 text with
  | .ok hash => .ok hash
  | .error fault => .error (.hex fault)

/-- Why a request asks for nothing that can be done. -/
inductive CallFault where
  | unknownMethod
  | params (fault : ParamFault)
deriving Repr, DecidableEq

/-- The parameters of a solution. -/
def solution (params : Json) : Except ParamFault Service.Call := do
  match ← stringParams 3 params with
  | [nonce, powHash, mixDigest] =>
    let nonce ← parseNonce nonce
    let powHash ← parseHash powHash
    let mixDigest ← parseHash mixDigest
    .ok (.submitWork nonce powHash mixDigest)
  | texts => .error (.wrongCount 3 texts.length)

/-- The parameters of a report of a hashrate. -/
def hashrate (params : Json) : Except ParamFault Service.Call := do
  match ← stringParams 2 params with
  | [rate, id] =>
    let rate ← parseQuantity rate
    let id ← parseHash id
    .ok (.submitHashrate rate id)
  | texts => .error (.wrongCount 2 texts.length)

/-- What a request asks for. -/
def Request.call (request : Request) : Except CallFault Service.Call :=
  if request.method = "eth_getWork" then .ok .getWork
  else if request.method = "eth_submitWork" then (solution request.params).mapError .params
  else if request.method = "eth_submitHashrate" then (hashrate request.params).mapError .params
  else .error .unknownMethod

end MiningPool.Rpc
