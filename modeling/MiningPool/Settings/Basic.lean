/-
Module: MiningPool.Settings.Basic
Purpose: the settings of the program, what they may hold and where they come from.
Main exports: Setting, SettingKind, Settings, GivenSettings, Settings.combine
-/
import MiningPool.Settings.Choice

/-!
Every setting has a name, a kind of values, and a value that holds unless another one is given. Settings
are given by arguments (or in the environment, which counts as the same) and by a file. What an argument
gives counts before what the file gives, and each setting is decided on its own. Some settings say what
this one run is to do, and a file does not decide about them. A file is read by itself, so it has its own
table of the values of settings that it does not name.
-/

namespace MiningPool

/-- The settings, in the order in which they are listed. -/
inductive Setting where
  | info
  | printConfig
  | configFile
  | logLevel
  | logFormat
  | shareThreshold
  | shareDifficulty
  | submitInterval
  | auditPolicy
  | auditIndex
  | auditFromSeed
  | datasetDir
  | datasetRevision
  | rpcInterface
  | rpcPort
  | confirmationPoll
  | confirmationTimeout
  | maxRetries
  | retryDelay
  | maxRetryDelay
  | datasetRoot
  | datasetProof
  | index
deriving Repr, DecidableEq

/-- What a setting holds. -/
inductive SettingKind where
  | flag
  /-- A natural number of so many bits. -/
  | natural (bits : Nat)
  | optionalNatural (bits : Nat)
  | naturals (bits : Nat)
  | text
  | path
  | optionalPath
  | level
  | format
  | policy
deriving Repr, DecidableEq

/-- The values of a kind. -/
@[reducible] def SettingKind.Value : SettingKind → Type
  | flag => Bool
  | natural _ => Nat
  | optionalNatural _ => Option Nat
  | naturals _ => List Nat
  | text => String
  | path => String
  | optionalPath => Option String
  | level => LogLevel
  | format => LogFormat
  | policy => AuditPolicy

namespace Setting

/-- All settings in order. -/
def all : List Setting :=
  [info, printConfig, configFile, logLevel, logFormat, shareThreshold, shareDifficulty, submitInterval,
    auditPolicy, auditIndex, auditFromSeed, datasetDir, datasetRevision, rpcInterface, rpcPort,
    confirmationPoll, confirmationTimeout, maxRetries, retryDelay, maxRetryDelay, datasetRoot, datasetProof,
    index]

/-- The key of a setting in files. -/
def key : Setting → String
  | info => "info"
  | printConfig => "print_config"
  | configFile => "config_file"
  | logLevel => "log_level"
  | logFormat => "log_format"
  | shareThreshold => "share_threshold"
  | shareDifficulty => "share_difficulty"
  | submitInterval => "submit_interval"
  | auditPolicy => "audit_policy"
  | auditIndex => "audit_index"
  | auditFromSeed => "audit_from_seed"
  | datasetDir => "dataset_dir"
  | datasetRevision => "dataset_revision"
  | rpcInterface => "rpc_interface"
  | rpcPort => "rpc_port"
  | confirmationPoll => "confirmation_poll_ms"
  | confirmationTimeout => "confirmation_timeout_secs"
  | maxRetries => "max_retries"
  | retryDelay => "retry_delay"
  | maxRetryDelay => "max_retry_delay"
  | datasetRoot => "dataset_root"
  | datasetProof => "dataset_proof"
  | index => "index"

/-- What a setting holds. -/
@[reducible] def kind : Setting → SettingKind
  | info => .flag
  | printConfig => .flag
  | configFile => .optionalPath
  | logLevel => .level
  | logFormat => .format
  | shareThreshold => .natural 64
  | shareDifficulty => .natural 64
  | submitInterval => .text
  | auditPolicy => .policy
  | auditIndex => .optionalNatural 64
  | auditFromSeed => .flag
  | datasetDir => .path
  | datasetRevision => .natural 32
  | rpcInterface => .text
  | rpcPort => .natural 16
  | confirmationPoll => .natural 64
  | confirmationTimeout => .natural 64
  | maxRetries => .natural 64
  | retryDelay => .natural 64
  | maxRetryDelay => .natural 64
  | datasetRoot => .optionalPath
  | datasetProof => .optionalPath
  | index => .naturals 32

/-- The value that holds if neither an argument nor a file gives another one. -/
def default : (setting : Setting) → setting.kind.Value
  | info => false
  | printConfig => false
  | configFile => none
  | logLevel => .info
  | logFormat => .plain
  | shareThreshold => (13 : Nat)
  | shareDifficulty => (100000 : Nat)
  | submitInterval => "1m"
  | auditPolicy => .previous
  | auditIndex => some (8 : Nat)
  | auditFromSeed => false
  | datasetDir => "~/.ethash"
  | datasetRevision => (23 : Nat)
  | rpcInterface => "127.0.0.1"
  | rpcPort => (1633 : Nat)
  | confirmationPoll => (1000 : Nat)
  | confirmationTimeout => (0 : Nat)
  | maxRetries => (10 : Nat)
  | retryDelay => (100 : Nat)
  | maxRetryDelay => (5000 : Nat)
  | datasetRoot => none
  | datasetProof => none
  | index => []

/-- The value that a file gives without naming the setting. -/
def fileDefault : (setting : Setting) → setting.kind.Value
  | info => false
  | printConfig => false
  | configFile => none
  | logLevel => .info
  | logFormat => .plain
  | shareThreshold => (13 : Nat)
  | shareDifficulty => (100000 : Nat)
  | submitInterval => "1m"
  | auditPolicy => .previous
  | auditIndex => some (8 : Nat)
  | auditFromSeed => false
  | datasetDir => "~/.ethash"
  | datasetRevision => DatasetLocator.defaultRevision
  | rpcInterface => "127.0.0.1"
  | rpcPort => (1633 : Nat)
  | confirmationPoll => (1000 : Nat)
  | confirmationTimeout => (0 : Nat)
  | maxRetries => (10 : Nat)
  | retryDelay => (100 : Nat)
  | maxRetryDelay => (5000 : Nat)
  | datasetRoot => none
  | datasetProof => none
  | index => []

/-- Whether a file decides about a setting that no argument gives. -/
def inFile : Setting → Bool
  | info | printConfig | configFile | datasetRoot | datasetProof | index => false
  | _ => true

/-- The setting of a key. -/
def ofKey? (key : String) : Option Setting := all.find? (·.key = key)

theorem mem_all (setting : Setting) : setting ∈ all := by
  cases setting <;> decide

end Setting

/-- The values of all settings. -/
abbrev Settings := (setting : Setting) → setting.kind.Value

/-- The values of those settings that a source gives. -/
abbrev GivenSettings := (setting : Setting) → Option setting.kind.Value

namespace GivenSettings

/-- A source that gives nothing. -/
def empty : GivenSettings := fun _ => none

/-- Gives a setting a value. -/
def set (given : GivenSettings) (setting : Setting) (value : setting.kind.Value) : GivenSettings :=
  fun other => if h : other = setting then some (h ▸ value) else given other

@[simp] theorem set_self (given : GivenSettings) (setting : Setting) (value : setting.kind.Value) :
    given.set setting value setting = some value := by
  simp [set]

theorem set_of_ne (given : GivenSettings) {setting other : Setting} (value : setting.kind.Value)
    (h : other ≠ setting) : given.set setting value other = given other := by
  simp [set, h]

end GivenSettings

namespace Settings

/-- The settings that arguments give, and the usual values of the others. -/
def ofGiven (given : GivenSettings) : Settings := fun setting => (given setting).getD setting.default

/-- The settings that a file gives, and the values that it gives to the others. -/
def ofFile (given : GivenSettings) : Settings := fun setting => (given setting).getD setting.fileDefault

/-- The settings that arguments and a file give. -/
def combine (arguments file : GivenSettings) : Settings := fun setting =>
  match arguments setting with
  | some value => value
  | none => if setting.inFile then ofFile file setting else setting.default

end Settings

end MiningPool
