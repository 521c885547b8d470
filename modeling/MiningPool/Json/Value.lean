/-
Module: MiningPool.Json.Value
Purpose: the JSON forms of fixed-size values and of solution states.
Main exports: FixedBytes.toJson, FixedBytes.ofJson, SolutionState.toJson, SolutionState.ofJson?
-/
import MiningPool.Block.Value
import MiningPool.Json.Basic
import MiningPool.Share.Basic

/-!
A fixed-size value is a JSON string that holds its text. A solution state is a string that holds its name;
an object with the name as its only key and null as the value is read as well.
-/

namespace MiningPool

/-- Why a JSON value is no fixed-size value. -/
inductive ValueFault where
  | notAString
  | text (fault : HexTextFault)
deriving Repr, DecidableEq

namespace FixedBytes

variable {n : Nat}

def toJson (value : FixedBytes n) : Json := .string value.text

def ofJson (n : Nat) : Json → Except ValueFault (FixedBytes n)
  | .string text =>
    match parse n text with
    | .ok value => .ok value
    | .error fault => .error (.text fault)
  | _ => .error .notAString

end FixedBytes

namespace SolutionState

def toJson (state : SolutionState) : Json := .string state.name

def ofJson? : Json → Option SolutionState
  | .string text => named? text
  | .object [(key, .null)] => named? key
  | _ => none

end SolutionState

end MiningPool
