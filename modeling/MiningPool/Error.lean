/-
Module: MiningPool.Error
Purpose: everything that can go wrong, by cause, with its kind and its wording.
Main exports: Error, ErrorKind, Error.message, ErrorKind.retryable, ErrorKind.fatal
-/
import MiningPool.Block.Value
import MiningPool.Clock.DurationText

/-!
An error is a cause. Its kind says what a caller may do about it: failures of the outside world (files,
node, contract, time limits) may be tried again; a broken tree, a malformed dataset and an impossible
state are fatal, because local data can no longer be trusted. A collaborator reports an error by its kind
and a text of its own.
-/

namespace MiningPool

/-- The kinds of error that callers tell apart. -/
inductive ErrorKind where
  | io
  | json
  | yaml
  | config
  | tree
  | malformedDataset
  | contract
  | node
  | pow
  | invalidParams
  | timeout
  | cancelled
  | invalidState
deriving Repr, DecidableEq

namespace ErrorKind

/-- Whether trying again may help. -/
def retryable : ErrorKind → Bool
  | io | contract | node | timeout => true
  | _ => false

/-- Whether local state can no longer be trusted. -/
def fatal : ErrorKind → Bool
  | tree | malformedDataset | invalidState => true
  | _ => false

/-- The word for the kind in records. -/
def category : ErrorKind → String
  | io => "io"
  | json => "json"
  | yaml => "yaml"
  | config => "config"
  | tree => "tree"
  | malformedDataset => "dataset"
  | contract => "contract"
  | node => "node"
  | pow => "pow"
  | invalidParams => "invalid_params"
  | timeout => "timeout"
  | cancelled => "cancelled"
  | invalidState => "invalid_state"

/-- What a message of the kind begins with. -/
def heading : ErrorKind → String
  | io => "I/O error: "
  | json => "JSON error: "
  | yaml => "YAML error: "
  | config => "Configuration error: "
  | tree => "Merkle tree error: "
  | malformedDataset => "Malformed dataset: "
  | contract => "Contract error: "
  | node => "Node error: "
  | pow => "PoW error: "
  | invalidParams => "Invalid parameter: "
  | timeout => "Operation timed out: "
  | cancelled => "Operation was cancelled: "
  | invalidState => "Invalid state: "

/-- The name of the kind in diagnostics. -/
def name : ErrorKind → String
  | io => "Io"
  | json => "Json"
  | yaml => "Yaml"
  | config => "Config"
  | tree => "Tree"
  | malformedDataset => "MalformedDataset"
  | contract => "Contract"
  | node => "Node"
  | pow => "Pow"
  | invalidParams => "InvalidParams"
  | timeout => "Timeout"
  | cancelled => "Cancelled"
  | invalidState => "InvalidState"

end ErrorKind

/-! ### Causes -/

/-- Why a file could not be read. -/
inductive FileFault where
  | notFound
  | notADirectory
  | isADirectory
  | nameTooLong
  | permissionDenied
  /-- Another fault that the operating system reports. -/
  | other (code : Nat) (text : String)
  /-- The name holds a zero byte. -/
  | zeroInName
  /-- The content is no UTF-8 text. -/
  | notText
deriving Repr, DecidableEq

namespace FileFault

/-- The number that the operating system gives to a fault of its own. -/
def code? : FileFault → Option Nat
  | notFound => some 2
  | notADirectory => some 20
  | isADirectory => some 21
  | nameTooLong => some 36
  | permissionDenied => some 13
  | other code _ => some code
  | zeroInName | notText => none

/-- The class of the fault in diagnostics. -/
def className : FileFault → String
  | notFound => "NotFound"
  | notADirectory => "NotADirectory"
  | isADirectory => "IsADirectory"
  | nameTooLong => "InvalidFilename"
  | permissionDenied => "PermissionDenied"
  | other _ _ => "Uncategorized"
  | zeroInName => "InvalidInput"
  | notText => "InvalidData"

/-- The fault in words, without its number. -/
def description : FileFault → String
  | notFound => "No such file or directory"
  | notADirectory => "Not a directory"
  | isADirectory => "Is a directory"
  | nameTooLong => "File name too long"
  | permissionDenied => "Permission denied"
  | other _ text => text
  | zeroInName => "file name contained an unexpected NUL byte"
  | notText => "stream did not contain valid UTF-8"

def message (fault : FileFault) : String :=
  match fault.code? with
  | some code => fault.description ++ s!" (os error {code})"
  | none => fault.description

/-- The fault with its number and class. -/
def diagnostic (fault : FileFault) : String :=
  match fault.code? with
  | some code =>
    s!"Os \x7b code: {code}, kind: " ++ fault.className ++ ", message: " ++
      Text.quoteText fault.description ++ " \x7d"
  | none =>
    "Error \x7b kind: " ++ fault.className ++ ", message: " ++ Text.quoteText fault.description ++
      " \x7d"

end FileFault

/-- What a tree refuses. -/
inductive TreeFault where
  /-- A leaf was offered for a position other than the next one. -/
  | outOfOrder (position expected : Nat)
  | noLeaves
  | notRegistered (position : Nat)
  /-- The position was registered after its leaf had been inserted, or has no leaf. -/
  | noBranch (position leaves : Nat)
  /-- A branch of a claim does not lead to the root. -/
  | claimBranch (position : Nat)
  /-- A branch of a dataset does not lead to the root. -/
  | datasetBranch (position : Nat)
deriving Repr, DecidableEq

def TreeFault.message : TreeFault → String
  | outOfOrder position expected =>
    s!"leaf {position} inserted out of order, expected position {expected}"
  | noLeaves => "cannot finalize a tree without leaves"
  | notRegistered position => s!"leaf {position} was not registered"
  | noBranch position leaves =>
    s!"leaf {position} was registered but the tree only has {leaves} leaves"
  | claimBranch position => s!"claim branch of share {position} does not reach the root"
  | datasetBranch position => s!"dataset branch of word {position} does not reach the root"

/-- Why a byte stream is no dataset. -/
inductive DatasetFault where
  /-- The stream ends after this many bytes of the magic number. -/
  | insideMagic (bytes : Nat)
  /-- A word is cut short. -/
  | partialWord (bytes words : Nat)
  | tooManyWords
deriving Repr, DecidableEq

def DatasetFault.message : DatasetFault → String
  | insideMagic bytes => s!"file ends after {bytes} bytes, inside the magic number"
  | partialWord bytes words => s!"trailing partial word of {bytes} bytes after {words} words"
  | tooManyWords => "more words than a u32 index can address"

/-- Why a text is no unsigned integer of a given width. -/
inductive IntegerFault where
  | empty
  | invalidDigit
  | tooLarge
deriving Repr, DecidableEq

def IntegerFault.message : IntegerFault → String
  | empty => "cannot parse integer from empty string"
  | invalidDigit => "invalid digit found in string"
  | tooLarge => "number too large to fit in target type"

/-- What is wrong with a value that came from outside. -/
inductive ParamFault where
  | hex (fault : HexTextFault)
  | zeroDifficulty
  | notAnArray
  | wrongCount (expected found : Nat)
  | notStrings
  /-- A quantity without `0x`. -/
  | unmarkedQuantity (text : String)
  | quantity (text : String) (fault : IntegerFault)
deriving Repr, DecidableEq

def ParamFault.message : ParamFault → String
  | hex fault => fault.message
  | zeroDifficulty => "share difficulty must be positive"
  | notAnArray => "params must be an array"
  | wrongCount expected found => s!"expected {expected} params, got {found}"
  | notStrings => "params must be strings"
  | unmarkedQuantity text => "quantity " ++ text ++ " lacks 0x prefix"
  | quantity text fault => "invalid quantity " ++ text ++ ": " ++ fault.message

/-- What cannot happen while the ledger of claims is sound. -/
inductive StateFault where
  | noSlot (number : Nat)
  | emptySummary
  | emptyAudit
  | auditOutside (index shares : Nat)
  | auditTooLarge
  | tooManyShares
deriving Repr, DecidableEq

def StateFault.message : StateFault → String
  | noSlot number => s!"claim {number} has no slot"
  | emptySummary => "cannot summarize an empty claim"
  | emptyAudit => "submitted claim holds no shares"
  | auditOutside index shares => s!"audit index {index} outside claim of {shares} shares"
  | auditTooLarge => "audit index exceeds u32 range"
  | tooManyShares => "claim holds more shares than a u32 index"

/-- What is wrong with the settings. -/
inductive ConfigFault where
  | zeroThreshold
  | zeroDifficulty
  | auditIndex (index threshold : Nat)
  | submitInterval (text : String) (fault : DurationFault)
  | zeroInterval
  /-- The settings do not name an address. -/
  | interface
  /-- No socket address can be made of the settings. -/
  | socket
  | zeroPoll
  /-- Nothing that could be done without a chain was asked for. -/
  | noBackend
deriving Repr, DecidableEq

def ConfigFault.message : ConfigFault → String
  | zeroThreshold => "Share threshold must be at least 1"
  | zeroDifficulty => "Share difficulty must be positive"
  | auditIndex index threshold =>
    s!"Audit index {index} must be below the share threshold {threshold}"
  | submitInterval text fault =>
    "Invalid submit interval " ++ Text.quoteText text ++ ": " ++ fault.message
  | zeroInterval => "Submit interval must be positive"
  | interface => "Invalid RPC interface address"
  | socket => "Invalid RPC interface: invalid IP address syntax"
  | zeroPoll => "Confirmation poll interval must be positive"
  | noBackend =>
    "no chain backend is linked into this binary; use --dataset-root, --dataset-proof or " ++
      "--print-config"

/-! ### Errors -/

/-- An error by its cause. -/
inductive Error where
  | file (fault : FileFault)
  /-- A settings file is no JSON or does not hold settings. -/
  | unreadableJson
  /-- A settings file is no YAML or does not hold settings. -/
  | unreadableYaml
  | config (fault : ConfigFault)
  | tree (fault : TreeFault)
  | dataset (fault : DatasetFault)
  | params (fault : ParamFault)
  | state (fault : StateFault)
  /-- A transaction was not confirmed in time. -/
  | unconfirmed (tx : Hash256)
  /-- Waiting for a transaction was given up because everything stops. -/
  | interrupted (tx : Hash256)
  /-- An error that a collaborator reported. -/
  | reported (kind : ErrorKind) (text : String)
deriving DecidableEq

namespace Error

def kind : Error → ErrorKind
  | file _ => .io
  | unreadableJson => .json
  | unreadableYaml => .yaml
  | config _ => .config
  | tree _ => .tree
  | dataset _ => .malformedDataset
  | params _ => .invalidParams
  | state _ => .invalidState
  | unconfirmed _ => .timeout
  | interrupted _ => .cancelled
  | reported kind _ => kind

/-- The cause in words. -/
def text : Error → String
  | file fault => fault.message
  | unreadableJson | unreadableYaml => ""
  | config fault => fault.message
  | tree fault => fault.message
  | dataset fault => fault.message
  | params fault => fault.message
  | state fault => fault.message
  | unconfirmed tx => "confirmation of " ++ tx.text
  | interrupted tx => "waiting for " ++ tx.text
  | reported _ text => text

/-- The kind and the cause in words. -/
def message (error : Error) : String := error.kind.heading ++ error.text

def retryable (error : Error) : Bool := error.kind.retryable

def fatal (error : Error) : Bool := error.kind.fatal

/-- The name of the kind and the fields of the error. -/
def diagnostic (error : Error) : String :=
  let fields (label : String) : String :=
    error.kind.name ++ " \x7b " ++ label ++ ": " ++ Text.quoteText error.text ++ " \x7d"
  match error with
  | file fault => error.kind.name ++ "(" ++ fault.diagnostic ++ ")"
  | unreadableJson | unreadableYaml => error.kind.name
  | _ =>
    match error.kind with
    | .timeout | .cancelled => fields "operation"
    | _ => fields "message"

end Error

end MiningPool
