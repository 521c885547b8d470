/-
Module: MiningPool.Settings.Meaning
Purpose: what the settings mean together, and which of them are refused.
Main exports: Settings.check, Settings.ledger, Settings.socket, Settings.auditPosition
-/
import MiningPool.Net.Address
import MiningPool.Settings.Basic

/-!
Settings are checked in a fixed order, and the first fault is reported. Settings that pass describe a
ledger whose claims have at least one share, whose rounds take some time, and whose audited position, if
it is fixed, lies within every claim.
-/

namespace MiningPool.Settings

variable (settings : Settings)

/-! ### Single settings -/

def shareThreshold : Nat := settings .shareThreshold

def shareDifficulty : Nat := settings .shareDifficulty

def rpcPort : Nat := settings .rpcPort

def logLevel : LogLevel := settings .logLevel

def auditFromSeed : Bool := settings .auditFromSeed

def auditIndex : Option Nat := settings .auditIndex

def rpcInterface : String := settings .rpcInterface

/-- The position that is audited; without one it is drawn by the contract. -/
def auditPosition : Option Nat := if settings.auditFromSeed then none else settings.auditIndex

/-- The time between two rounds. -/
def submitInterval : Except ConfigFault Duration :=
  (Duration.parse (settings .submitInterval)).mapError (.submitInterval (settings .submitInterval))

/-- The time between two looks at a transaction. -/
def confirmationPoll : Duration := Duration.ofMillis (settings .confirmationPoll)

/-- How long a transaction is waited for; zero seconds are no limit. -/
def confirmationTimeout : Option Duration :=
  let seconds : Nat := settings .confirmationTimeout
  if seconds = 0 then none else some (Duration.ofSeconds seconds)

/-- How calls are repeated. -/
def retryPolicy : RetryPolicy :=
  RetryPolicy.create (settings .maxRetries) (Duration.ofMillis (settings .retryDelay))
    (Duration.ofMillis (settings .maxRetryDelay))

/-- The datasets, given the home directory if there is one. -/
def datasets (home : Option String) : DatasetLocator :=
  ⟨FilePath.expandHome home (settings .datasetDir), settings .datasetRevision⟩

/-- The address at which miners are served, in words. -/
def socket : Except ConfigFault String :=
  match IpAddress.parse? settings.rpcInterface with
  | some address => .ok (address.socketText settings.rpcPort)
  | none => .error .socket

/-! ### All settings -/

/-- Refuses an audited position outside of the claims. -/
def checkAuditPosition : Except ConfigFault Unit :=
  match settings.auditPosition with
  | some index =>
    if index < settings.shareThreshold then .ok ()
    else .error (.auditIndex index settings.shareThreshold)
  | none => .ok ()

/-- Refuses settings with which the pool cannot work. -/
def check : Except ConfigFault Unit :=
  if settings.shareThreshold = 0 then .error .zeroThreshold
  else if settings.shareDifficulty = 0 then .error .zeroDifficulty
  else do
    settings.checkAuditPosition
    let interval ← settings.submitInterval
    if interval = 0 then .error .zeroInterval
    else if (IpAddress.parse? settings.rpcInterface).isNone then .error .interface
    else if settings.confirmationPoll = 0 then .error .zeroPoll
    else .ok ()

/-- The settings of a ledger, given the home directory if there is one. -/
def ledger (home : Option String) : Except ConfigFault LedgerSettings := do
  let submitInterval ← settings.submitInterval
  .ok {
    shareThreshold := settings.shareThreshold
    auditPolicy := settings .auditPolicy
    auditIndex := settings.auditPosition
    datasets := settings.datasets home
    submitInterval
    confirmation := ⟨settings.confirmationPoll, settings.confirmationTimeout⟩
    retry := settings.retryPolicy }

end MiningPool.Settings
