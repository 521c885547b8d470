/-
Module: MiningPool.Command.Arguments
Purpose: reading settings from the arguments of the program and from the environment.
Main exports: Command.readArguments, Command.Stop
-/
import MiningPool.Number.Power
import MiningPool.Number.Unsigned
import MiningPool.Settings.Basic

/-!
Every setting is an option `--name`, where the name is the key with dashes; the log level is `-l` as well. A
flag takes no value. Any other option takes its value from the next argument, or from behind an equals
sign. An argument that begins with a dash is never the value of the option before it, unless it is nothing
but a dash. The list of positions takes as many of the next arguments as follow, and may be given again;
all other options are given at most once. There are no other arguments.

An option whose value stands in an argument of its own is complete only when the next option or the end has
been reached, and is looked at then. So an unknown argument behind it is reported first.
-/

namespace MiningPool.Command

/-- Why the arguments do not lead to settings. -/
inductive Stop where
  /-- The program was asked how it is used. -/
  | help
  /-- The program was asked for its version. -/
  | version
  | unknownArgument
  /-- A value is missing, empty, or none of the values that are allowed. -/
  | invalidValue
  /-- A value is no number, or none that fits. -/
  | invalidNumber
  /-- A flag was given a value. -/
  | tooManyValues
  /-- An option was given twice. -/
  | conflict
  /-- An option was given that needs another one. -/
  | missingArgument
deriving Repr, DecidableEq

/-! ### Values -/

/-- A natural number of so many bits. Numbers of at most 32 bits may be written with a minus sign, if they
are zero nevertheless. -/
def readNatural (bits : Nat) (text : String) : Except Stop Nat :=
  match text.toList with
  | '-' :: c :: digits =>
    if bits ≤ 32 ∧ (c :: digits).all (· == '0') then .ok 0 else .error .invalidNumber
  | chars => (Unsigned.parse 10 (2 ^ bits) chars).mapError fun _ => .invalidNumber

/-- A file name, which must not be empty. -/
def readPath (text : String) : Except Stop String :=
  if text.isEmpty then .error .invalidValue else .ok text

/-- A choice. -/
def readChoice {α : Type} [Choice α] (text : String) : Except Stop α :=
  match Choice.named? text with
  | some value => .ok value
  | none => .error .invalidValue

/-- The value of a kind that one argument gives. A flag is given without one. -/
def readValue : (kind : SettingKind) → String → Except Stop kind.Value
  | .flag, _ => .ok true
  | .natural bits, text => readNatural bits text
  | .optionalNatural bits, text => (readNatural bits text).map some
  | .naturals bits, text => (readNatural bits text).map ([·])
  | .text, text => .ok text
  | .path, text => readPath text
  | .optionalPath, text => (readPath text).map some
  | .level, text => readChoice text
  | .format, text => readChoice text
  | .policy, text => readChoice text

/-- The value that further arguments give beside the one that has been given before. -/
def addValues : (kind : SettingKind) → Option kind.Value → List String → Except Stop kind.Value
  | _, _, [] => .error .invalidValue
  | .naturals bits, before, texts => do
    let values ← texts.mapM (readNatural bits)
    .ok ((before : Option (List Nat)).getD [] ++ values)
  | kind, none, text :: _ => readValue kind text
  | _, some _, _ => .error .conflict

/-! ### Options -/

/-- The options that lead to no settings. -/
inductive Inquiry where
  | help
  | version
deriving Repr, DecidableEq

/-- What an option is about. -/
inductive OptionName where
  | setting (setting : Setting)
  | inquiry (inquiry : Inquiry)
deriving Repr, DecidableEq

/-- The name of the option of a setting. -/
def optionName (setting : Setting) : String :=
  String.ofList (setting.key.toList.map fun c => if c = '_' then '-' else c)

/-- The setting of an option. -/
def settingOf? (name : String) : Option Setting := Setting.all.find? (optionName · = name)

namespace OptionName

/-- The option of a long name. -/
def ofName? (name : String) : Option OptionName :=
  if name = "help" then some (.inquiry .help)
  else if name = "version" then some (.inquiry .version)
  else (settingOf? name).map .setting

/-- The option of a letter. -/
def ofLetter? (letter : Char) : Option OptionName :=
  if letter = 'h' then some (.inquiry .help)
  else if letter = 'V' then some (.inquiry .version)
  else if letter = 'l' then some (.setting .logLevel)
  else none

end OptionName

/-- An argument by its form. -/
inductive Argument where
  /-- Two dashes, behind which nothing is an option. -/
  | separator
  | long (name : String) (value : Option String)
  /-- A letter with what stands behind it. -/
  | short (letter : Char) (rest : List Char)
  | word (text : String)
deriving Repr, DecidableEq

namespace Argument

/-- Splits a text at its first equals sign. -/
def splitValue (text : List Char) : String × Option String :=
  match text.dropWhile (· != '=') with
  | [] => (String.ofList text, none)
  | _ :: value => (String.ofList (text.takeWhile (· != '=')), some (String.ofList value))

/-- The form of an argument. -/
def ofText (text : String) : Argument :=
  match text.toList with
  | ['-', '-'] => separator
  | '-' :: '-' :: rest => let (name, value) := splitValue rest; long name value
  | '-' :: letter :: rest => short letter rest
  | _ => word text

end Argument

/-! ### Reading -/

/-- An option that waits for values. -/
structure Pending where
  setting : Setting
  values : List String
deriving Repr, DecidableEq

/-- Whether one more argument can be a value of the option. -/
def Pending.takesMore (pending : Pending) : Bool :=
  match pending.setting.kind with
  | .naturals _ => true
  | _ => pending.values.isEmpty

/-- What has been read of the arguments. -/
structure Progress where
  given : GivenSettings
  pending : Option Pending
  /-- Whether two dashes have been passed. -/
  separated : Bool

namespace Progress

/-- Nothing has been read. -/
def start : Progress := ⟨GivenSettings.empty, none, false⟩

/-- Gives a setting some values. -/
def give (progress : Progress) (setting : Setting) (values : List String) : Except Stop Progress := do
  let value ← addValues setting.kind (progress.given setting) values
  .ok { progress with given := progress.given.set setting value }

/-- Completes the option that waits for values. -/
def settle (progress : Progress) : Except Stop Progress :=
  match progress.pending with
  | none => .ok progress
  | some pending => { progress with pending := none }.give pending.setting pending.values

/-- Reads an option with the value that is attached to it, if there is one. -/
def readOption (progress : Progress) (option : OptionName) (value : Option String) :
    Except Stop Progress := do
  match option, value with
  | .inquiry _, some _ => .error .tooManyValues
  | .inquiry .help, none => let _ ← progress.settle; .error .help
  | .inquiry .version, none => let _ ← progress.settle; .error .version
  | .setting setting, value =>
    match setting.kind, value with
    | .flag, some _ => .error .tooManyValues
    | .flag, none => (← progress.settle).give setting [""]
    | _, some value => (← progress.settle).give setting [value]
    | _, none => .ok { ← progress.settle with pending := some ⟨setting, []⟩ }

/-- The value that stands right behind a letter, perhaps with an equals sign in front. -/
def letterValue : List Char → Option String
  | [] => none
  | '=' :: value => some (String.ofList value)
  | value => some (String.ofList value)

/-- Reads a letter with what stands behind it; more letters may follow one that takes no value, but the ones
there are lead to no settings. -/
def readLetter (progress : Progress) (letter : Char) (rest : List Char) : Except Stop Progress :=
  match OptionName.ofLetter? letter with
  | none => .error .unknownArgument
  | some (.inquiry inquiry) => progress.readOption (.inquiry inquiry) none
  | some (.setting setting) => progress.readOption (.setting setting) (letterValue rest)

/-- Reads an argument that is no option. -/
def readWord (progress : Progress) (text : String) : Except Stop Progress :=
  match progress.pending with
  | none => .error .unknownArgument
  | some pending =>
    if pending.takesMore then
      .ok { progress with pending := some { pending with values := pending.values ++ [text] } }
    else .error .unknownArgument

/-- Reads an argument. -/
def readArgument (progress : Progress) (text : String) : Except Stop Progress :=
  if progress.separated then .error .unknownArgument
  else
    match Argument.ofText text with
    | .separator => .ok { progress with separated := true }
    | .long name value =>
      match OptionName.ofName? name with
      | none => .error .unknownArgument
      | some option => progress.readOption option value
    | .short letter rest => progress.readLetter letter rest
    | .word text => progress.readWord text

end Progress

/-- Takes the log level from the environment, unless an option gives it. -/
def withEnvironment (given : GivenSettings) (level : Option String) : Except Stop GivenSettings :=
  match given .logLevel, level with
  | none, some text => do .ok (given.set .logLevel (← readValue .level text))
  | _, _ => .ok given

/-- Refuses an option without the one that it needs. -/
def checkNeeds (given : GivenSettings) : Except Stop Unit :=
  if (given .datasetProof).isSome ∧ (given .index).isNone then .error .missingArgument else .ok ()

/-- The settings that arguments give, and the environment with them. -/
def readArguments (arguments : List String) (level : Option String) : Except Stop GivenSettings := do
  let progress ← arguments.foldlM Progress.readArgument Progress.start
  let given ← withEnvironment (← progress.settle).given level
  checkNeeds given
  .ok given

end MiningPool.Command
