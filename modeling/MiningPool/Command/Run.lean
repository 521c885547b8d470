/-
Module: MiningPool.Command.Run
Purpose: what the program does when it is called from a command line.
Main exports: Command.run, Command.Outcome
-/
import MiningPool.Command.Arguments
import MiningPool.Dataset.Reader
import MiningPool.Number.ByteSize
import MiningPool.Settings.Json
import MiningPool.Settings.Meaning
import MiningPool.Settings.Yaml

/-!
The program reads its settings, checks them, and does the first of these things that it was asked for: to
say what it is, to print the settings, to print the root of a dataset, or to print words of a dataset with
their branches. It serves no miners, because it is linked to no chain.

The only thing that is asked of the world is the content of files, so that a run is a function of what
files hold. The root of a dataset is printed as soon as it is known, in front of a fault in the positions
that were asked for.
-/

namespace MiningPool.Command

/-- The name of the program. -/
def programName : String := "smartpool-client"

def programVersion : String := "0.1.0"

def programPurpose : String :=
  "Client for a trustless mining pool: batches shares into claims and proves them to the pool contract"

/-! ### Outcomes -/

/-- How a run ends. -/
inductive Ending where
  | finished
  /-- The arguments do not lead to settings. -/
  | stopped (stop : Stop)
  | failed (error : Error)
deriving DecidableEq

/-- What a run prints and how it ends. -/
structure Outcome where
  printed : String
  ending : Ending
deriving DecidableEq

namespace Stop

/-- Whether the program did what it was asked for. -/
def isInquiry : Stop → Bool
  | help | version => true
  | _ => false

/-- What is wrong with the arguments. -/
def message : Stop → String
  | help | version => ""
  | unknownArgument => "unexpected argument"
  | invalidValue => "missing or invalid value"
  | invalidNumber => "invalid number"
  | tooManyValues => "unexpected value"
  | conflict => "repeated argument"
  | missingArgument => "missing argument"

end Stop

namespace Outcome

/-- The exit code. -/
def exitCode (outcome : Outcome) : Nat :=
  match outcome.ending with
  | .finished => 0
  | .stopped stop => if stop.isInquiry then 0 else 2
  | .failed _ => 1

/-- What is printed as an error. -/
def complaint (outcome : Outcome) : String :=
  match outcome.ending with
  | .finished => ""
  | .stopped stop => if stop.isInquiry then "" else "error: " ++ stop.message ++ "\n"
  | .failed error => "Error: " ++ error.diagnostic ++ "\n"

/-- Prints lines and ends well. -/
def ofLines (lines : List String) : Outcome := ⟨String.join (lines.map (· ++ "\n")), .finished⟩

/-- Prints nothing and ends with an error. -/
def ofError (error : Error) : Outcome := ⟨"", .failed error⟩

/-- Prints the lines of a report up to its error, if it has one. -/
def ofReport (report : List String × Option Error) : Outcome :=
  match report.2 with
  | none => ofLines report.1
  | some error => { ofLines report.1 with ending := .failed error }

end Outcome

/-! ### Reports -/

/-- How the program is used. -/
def usageLines : List String :=
  ["Usage: " ++ programName ++ " [OPTIONS]", "", "Options:"] ++
    Setting.all.map fun setting =>
      match setting.kind with
      | .flag => "  --" ++ optionName setting
      | _ => "  --" ++ optionName setting ++ " <VALUE>"

/-- What the program is. -/
def infoLines : List String := [programName ++ " v" ++ programVersion, programPurpose]

/-- The root of a dataset and its measures. -/
def rootLines (summary : DatasetSummary) : List String :=
  ["root:          " ++ summary.root.text,
    s!"elements:      {summary.elementCount}",
    "size:          " ++ byteSizeText (summary.elementCount * 128),
    s!"branch depth:  {summary.branchDepth}"]

/-- A word as four integers of 64 digits. -/
def elementLine (position : Nat) (word : Word) : String :=
  s!"element {position}: " ++ " ".intercalate (word.integers.map fun n => (natPad32 n).text)

/-- The root of a tree, and the words and branches of its registrations. If there is a fault in these, the
root stands alone. -/
def proofReport (tree : DatasetTree) : List String × Option Error :=
  let root := "root: " ++ tree.root.hash.text
  match tree.words with
  | .error error => ([root], some error)
  | .ok words =>
    let lines := root :: (tree.registered.zip words).map fun (position, word) => elementLine position word
    match tree.branchElements with
    | .error error => (lines, some error)
    | .ok elements => (lines ++ elements.map fun element => "branch: " ++ element.text, none)

/-! ### Runs -/

section Run

variable {m : Type → Type} [Monad m] (readFile : String → m (Except FileFault (List UInt8)))

/-- The settings that the content of a file gives; only the extension tells its format. -/
def settingsOf (path : String) (content : List UInt8) : Except Error GivenSettings :=
  match Utf8.decode? content with
  | none => .error (.file .notText)
  | some text =>
    if FilePath.hasExtension "json" path then Settings.ofJson content
    else Settings.ofYaml (String.ofList text)

/-- The settings that arguments give, together with those of the file that they name. -/
def loadSettings (given : GivenSettings) : m (Except Error Settings) := do
  let path : Option String := Settings.ofGiven given .configFile
  match path with
  | none => pure (.ok (Settings.ofGiven given))
  | some path =>
    match ← readFile path with
    | .error fault => pure (.error (.file fault))
    | .ok content => pure ((settingsOf path content).map (Settings.combine given))

/-- Settings that pass the check. -/
def checkedSettings (given : GivenSettings) : m (Except Error Settings) := do
  match ← loadSettings readFile given with
  | .error error => pure (.error error)
  | .ok settings => pure ((settings.check.mapError .config).map fun _ => settings)

/-- The tree of a dataset file with some positions registered. -/
def datasetTree (positions : List Nat) (path : String) : m (Except Error DatasetTree) := do
  return DatasetTree.ofFile positions (← readFile path)

/-- Does what the settings ask for. -/
def perform (settings : Settings) : m Outcome := do
  let info : Bool := settings .info
  let printConfig : Bool := settings .printConfig
  let datasetRoot : Option String := settings .datasetRoot
  let datasetProof : Option String := settings .datasetProof
  if info then pure (.ofLines infoLines)
  else if printConfig then pure (.ofLines [settings.yamlText])
  else
    match datasetRoot, datasetProof with
    | some path, _ =>
      match ← datasetTree readFile [] path with
      | .error error => pure (.ofError error)
      | .ok tree => pure (.ofLines (rootLines tree.summary))
    | none, some path =>
      match ← datasetTree readFile (settings .index) path with
      | .error error => pure (.ofError error)
      | .ok tree => pure (.ofReport (proofReport tree))
    | none, none => pure (.ofError (.config .noBackend))

/-- A run with some arguments, given the log level of the environment if there is one. -/
def run (level : Option String) (arguments : List String) : m Outcome := do
  match readArguments arguments level with
  | .error .help => pure { Outcome.ofLines usageLines with ending := .stopped .help }
  | .error .version =>
    pure { Outcome.ofLines [programName ++ " " ++ programVersion] with ending := .stopped .version }
  | .error stop => pure ⟨"", .stopped stop⟩
  | .ok given =>
    match ← checkedSettings readFile given with
    | .error error => pure (.ofError error)
    | .ok settings => perform readFile settings

end Run

end MiningPool.Command
