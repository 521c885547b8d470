/-
Module: MiningPool.Settings.Choice
Purpose: settings that are one of a few named values.
Main exports: Choice, Choice.named?, LogLevel, LogFormat
-/
import MiningPool.Ledger.Basic

/-!
Some settings choose one of a few values. Every value has a name, which is written exactly as it is.
-/

namespace MiningPool

/-- A type of a few values with names. -/
class Choice (α : Type) where
  all : List α
  name : α → String

/-- The value of a name. -/
def Choice.named? {α : Type} [Choice α] (text : String) : Option α :=
  (Choice.all : List α).find? (Choice.name · = text)

/-- How much is logged. -/
inductive LogLevel where
  | error
  | warn
  | info
  | debug
  | trace
deriving Repr, DecidableEq

/-- How log lines are written. -/
inductive LogFormat where
  | plain
  | json
  | pretty
deriving Repr, DecidableEq

instance : Choice LogLevel where
  all := [.error, .warn, .info, .debug, .trace]
  name
    | .error => "error"
    | .warn => "warn"
    | .info => "info"
    | .debug => "debug"
    | .trace => "trace"

instance : Choice LogFormat where
  all := [.plain, .json, .pretty]
  name
    | .plain => "plain"
    | .json => "json"
    | .pretty => "pretty"

instance : Choice AuditPolicy where
  all := [.previous, .oldestUnverified]
  name
    | .previous => "previous"
    | .oldestUnverified => "oldest-unverified"

end MiningPool
