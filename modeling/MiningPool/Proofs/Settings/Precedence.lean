/-
Module: MiningPool.Proofs.Settings.Precedence
Purpose: which of its sources decides about a setting.
Main exports: Command.FileNames, Command.Precedes, Command.precedence_of_readArguments
-/
import MiningPool.Command.Run
import MiningPool.Proofs.Command.Arguments
import MiningPool.Proofs.Utf8

/-!
A setting has the value that arguments or the environment give, or else the one that the file gives under its
key, or else its usual value, which does not depend on whether there is a file. This is decided for each setting
on its own. About six settings the file does not decide.
-/

namespace MiningPool

/-- The usual values of a file are those of the arguments. -/
theorem Setting.fileDefault_eq_default (setting : Setting) : setting.fileDefault = setting.default := by
  cases setting <;> rfl

theorem Setting.ofKey?_eq_some {key : String} {setting : Setting} :
    ofKey? key = some setting ↔ key = setting.key := by
  constructor
  · intro found
    have same := List.find?_some found
    exact (of_decide_eq_true same).symm
  · rintro rfl
    have own : ∀ setting ∈ all, ofKey? setting.key = some setting := by decide +kernel
    exact own setting setting.mem_all

theorem Setting.key_inj {left right : Setting} : left.key = right.key ↔ left = right := by
  refine ⟨fun same => ?_, congrArg key⟩
  have found := ofKey?_eq_some.2 same
  rw [ofKey?_eq_some.2 rfl] at found
  exact Option.some.inj found

/-! ### Keys in files -/

namespace Settings

/-- The settings of a mapping are those whose keys are in it. -/
theorem isSome_ofMembers? {document : Yaml.Document} {given file : GivenSettings}
    {members : List (Yaml.Node × Yaml.Node)} (read : ofMembers? document given members = some file)
    {setting : Setting} : (file setting).isSome = true ↔ (given setting).isSome = true ∨
      ∃ member ∈ members, (document.follow member.1).text? = some setting.key := by
  induction members generalizing given with
  | nil =>
      cases read
      simp
  | cons member members ih =>
      obtain ⟨key, value⟩ := member
      rw [ofMembers?] at read
      obtain ⟨name, named, read⟩ := Option.bind_eq_some_iff.1 read
      have first : (∃ member ∈ (key, value) :: members,
          (document.follow member.1).text? = some setting.key) ↔
            name = setting.key ∨ ∃ member ∈ members,
              (document.follow member.1).text? = some setting.key := by
        simp [named]
      rw [first]
      split at read
      · rename_i unknown
        have other : name ≠ setting.key := by
          intro same
          rw [Setting.ofKey?_eq_some.2 same] at unknown
          cases unknown
        rw [ih read]
        simp [other]
      · rename_i known found
        rw [Setting.ofKey?_eq_some] at found
        split at read
        · cases read
        · obtain ⟨value, _, read⟩ := Option.bind_eq_some_iff.1 read
          rw [ih read, GivenSettings.isSome_set, found, Setting.key_inj, or_assoc, or_left_comm,
            eq_comm (a := known)]

/-- A record lists the settings that it gives. -/
theorem jsonForm_keeps : jsonForm.Keeps fun values present =>
    ∀ setting : Setting, (values setting).isSome = true ↔ setting.key ∈ present := by
  intro name values bytes after rest read present holds setting
  simp only [jsonForm] at read
  split at read
  · cases read
  · rename_i known found
    obtain ⟨⟨value, behind⟩, _, read⟩ := bind_eq_ok.1 read
    cases read
    rw [GivenSettings.isSome_set, holds, List.mem_cons, Setting.ofKey?_eq_some.1 found, Setting.key_inj]

theorem isSome_ofJson {content : List UInt8} {file : GivenSettings} (read : ofJson content = .ok file) :
    ∃ parts rest, jsonForm.read? GivenSettings.empty content = .ok (parts, rest) ∧
      ∀ setting : Setting, (file setting).isSome = true ↔ setting.key ∈ parts.present := by
  rw [ofJson] at read
  cases parsed : Json.parseRecord jsonForm GivenSettings.empty finishJson content with
  | error fault =>
      rw [parsed] at read
      cases read
  | ok given =>
      rw [parsed] at read
      cases read
      obtain ⟨⟨parts, rest⟩, record, finished⟩ := bind_eq_ok.1 parsed
      have listed := Json.RecordForm.read?_keeps jsonForm_keeps record (by simp [GivenSettings.empty])
      refine ⟨parts, rest, record, ?_⟩
      dsimp only [finishJson] at finished
      split at finished
      · cases finished
      · rename_i complete
        split at complete
        · cases complete
          split at finished
          · cases finished
            exact listed
          · cases finished
        · cases complete

/-- Only a document with a mapping gives settings, those whose keys are in the mapping. -/
theorem isSome_ofYaml {text : String} {file : GivenSettings} (read : ofYaml text = .ok file)
    {setting : Setting} : (file setting).isSome = true ↔ ∃ document members,
      Yaml.parse? text = some (some document) ∧ document.root.members? = some members ∧
        ∃ member ∈ members, (document.follow member.1).text? = some setting.key := by
  rw [ofYaml] at read
  rcases parsed : Yaml.parse? text with _ | _ | document
  · rw [parsed] at read
    cases read
  · rw [parsed] at read
    cases read
    simp [GivenSettings.empty]
  · rw [parsed] at read
    cases found : ofDocument? document with
    | none =>
        simp only [found] at read
        cases read
    | some given =>
        simp only [found] at read
        cases read
        obtain ⟨members, mapping, taken⟩ := Option.bind_eq_some_iff.1 found
        rw [isSome_ofMembers? taken]
        simp [GivenSettings.empty, mapping]

end Settings

namespace Command

/-- A file names a setting: as a member of an object, as an item of an array, or as a member of a mapping. -/
inductive FileNames (path : String) (content : List UInt8) (setting : Setting) : Prop where
  | json {parts : Json.RecordParts GivenSettings} {rest : List UInt8}
      (extension : FilePath.hasExtension "json" path = true)
      (record : Settings.jsonForm.read? GivenSettings.empty content = .ok (parts, rest))
      (member : setting.key ∈ parts.present) : FileNames path content setting
  | yaml {text : List Char} {document : Yaml.Document} {members : List (Yaml.Node × Yaml.Node)}
      {member : Yaml.Node × Yaml.Node} (extension : FilePath.hasExtension "json" path = false)
      (decoded : Utf8.decode? content = some text)
      (parsed : Yaml.parse? (String.ofList text) = some (some document))
      (mapping : document.root.members? = some members) (listed : member ∈ members)
      (name : (document.follow member.1).text? = some setting.key) : FileNames path content setting

variable {path : String} {content : List UInt8} {given file : GivenSettings}

theorem isSome_of_settingsOf (read : settingsOf path content = .ok file) (setting : Setting) :
    (file setting).isSome = true ↔ FileNames path content setting := by
  rw [settingsOf] at read
  cases decoded : Utf8.decode? content with
  | none =>
      rw [decoded] at read
      cases read
  | some text =>
      rw [decoded] at read
      dsimp only at read
      split at read
      · rename_i isJson
        obtain ⟨parts, rest, record, isSome⟩ := Settings.isSome_ofJson read
        rw [isSome]
        constructor
        · exact .json isJson record
        · rintro (⟨_, same, member⟩ | ⟨isYaml⟩)
          · rw [record] at same
            cases same
            exact member
          · rw [isJson] at isYaml
            cases isYaml
      · rename_i notJson
        rw [Settings.isSome_ofYaml read]
        constructor
        · rintro ⟨document, members, parsed, mapping, member, listed, name⟩
          exact .yaml (Bool.eq_false_iff.2 notJson) decoded parsed mapping listed name
        · rintro (⟨isJson⟩ | ⟨_, same, parsed, mapping, listed, name⟩)
          · exact absurd isJson notJson
          · rw [decoded] at same
            cases same
            exact ⟨_, _, parsed, mapping, _, listed, name⟩

/-! ### Precedence -/

/-- The settings that a file may decide about. -/
def mergeable : List Setting :=
  [.logLevel, .logFormat, .shareThreshold, .shareDifficulty, .submitInterval, .auditPolicy, .auditIndex,
    .auditFromSeed, .datasetDir, .datasetRevision, .rpcInterface, .rpcPort, .confirmationPoll,
    .confirmationTimeout, .maxRetries, .retryDelay, .maxRetryDelay]

/-- How settings are put together of values that are given beside a file and values of the file. -/
structure Precedes (given file : GivenSettings) (settings : Settings) : Prop where
  ofGiven : ∀ setting value, given setting = some value → settings setting = value
  ofFile : ∀ setting ∈ mergeable, given setting = none → ∀ value, file setting = some value →
    settings setting = value
  /-- The value is the one without a file. -/
  usual : ∀ setting ∈ mergeable, given setting = none → file setting = none →
    settings setting = Settings.ofGiven given setting
  /-- About these settings the file does not decide. -/
  own : ∀ setting ∈ [.info, .printConfig, .configFile, .datasetRoot, .datasetProof, .index],
    settings setting = Settings.ofGiven given setting

theorem inFile_of_mem_mergeable : ∀ setting ∈ mergeable, setting.inFile = true := by
  decide

theorem precedes_combine (given file : GivenSettings) :
    Precedes given file (Settings.combine given file) where
  ofGiven setting value isGiven := by
    rw [Settings.combine, isGiven]
  ofFile setting merged isGiven value fromFile := by
    rw [Settings.combine, isGiven]
    simp only [inFile_of_mem_mergeable setting merged, if_true, Settings.ofFile, fromFile, Option.getD_some]
  usual setting merged isGiven fromFile := by
    rw [Settings.combine, Settings.ofGiven, isGiven]
    simp only [inFile_of_mem_mergeable setting merged, if_true, Settings.ofFile, fromFile, Option.getD_none,
      Setting.fileDefault_eq_default]
  own setting listed := by
    have alone : ∀ setting ∈ [Setting.info, .printConfig, .configFile, .datasetRoot, .datasetProof, .index],
        setting.inFile = false := by decide
    rw [Settings.combine, Settings.ofGiven]
    cases given setting with
    | none => simp only [alone setting listed, Bool.false_eq_true, if_false, Option.getD_none]
    | some value => rfl

variable {files : String → Except FileFault (List UInt8)}

/-- The file that arguments name. -/
def fileOf (given : GivenSettings) : Option String := Settings.ofGiven given .configFile

theorem loadSettings_of_none (unnamed : fileOf given = none) :
    loadSettings (m := Id) files given = .ok (Settings.ofGiven given) := by
  rw [loadSettings, ← fileOf, unnamed]
  rfl

theorem loadSettings_of_some (named : fileOf given = some path)
    (found : files path = .ok content) (read : settingsOf path content = .ok file) :
    loadSettings (m := Id) files given = .ok (Settings.combine given file) := by
  rw [loadSettings, ← fileOf, named]
  simp only [found, read, bind, pure, Except.map]

variable {settings : Settings}

/-- Settings come from the arguments alone, or from the arguments and the file that they name. -/
theorem of_loadSettings (loaded : loadSettings (m := Id) files given = .ok settings) :
    fileOf given = none ∧ settings = Settings.ofGiven given ∨
      ∃ path content file, fileOf given = some path ∧ files path = .ok content ∧
        settingsOf path content = .ok file ∧ settings = Settings.combine given file := by
  cases named : fileOf given with
  | none =>
      rw [loadSettings_of_none named] at loaded
      cases loaded
      exact .inl ⟨rfl, rfl⟩
  | some path =>
      cases found : files path with
      | error fault =>
          rw [loadSettings, ← fileOf, named] at loaded
          simp only [found] at loaded
          cases loaded
      | ok content =>
          cases read : settingsOf path content with
          | error error =>
              rw [loadSettings, ← fileOf, named] at loaded
              simp only [found, read, bind, pure, Except.map] at loaded
              cases loaded
          | ok file =>
              rw [loadSettings_of_some named found read] at loaded
              cases loaded
              exact .inr ⟨path, content, file, rfl, found, read, rfl⟩

/-- Settings are used if they can be loaded and pass the check. -/
theorem checkedSettings_eq_ok : checkedSettings (m := Id) files given = .ok settings ↔
    loadSettings (m := Id) files given = .ok settings ∧ settings.check = .ok () := by
  constructor
  · intro checked
    cases loaded : loadSettings (m := Id) files given with
    | error error =>
        rw [checkedSettings, loaded] at checked
        cases checked
    | ok own =>
        rw [checkedSettings, loaded] at checked
        cases passed : own.check with
        | error fault =>
            simp only [passed, bind, pure] at checked
            cases checked
        | ok _ =>
            simp only [passed, bind, pure] at checked
            cases checked
            exact ⟨rfl, passed⟩
  · intro ⟨loaded, passed⟩
    rw [checkedSettings, loaded]
    simp only [passed, bind, pure]
    rfl

/-- With accepted arguments, and with a file that can be read if they name one, there are settings. Each of
those that a file may decide about has the value that arguments or the environment give, or else the value of
the file, or else the one that it has without a file; the others have the values that they have without. -/
theorem precedence_of_readArguments {arguments : List String} {level : Option String}
    {given : GivenSettings} (accepted : readArguments arguments level = .ok given)
    (files : String → Except FileFault (List UInt8)) :
    Sources arguments level given ∧
      (fileOf given = none ∧ loadSettings (m := Id) files given = .ok (Settings.ofGiven given) ∨
        ∃ path, fileOf given = some path ∧
          ∀ content file, files path = .ok content → settingsOf path content = .ok file →
            (∀ setting, (file setting).isSome = true ↔ FileNames path content setting) ∧
              ∃ settings, loadSettings (m := Id) files given = .ok settings ∧
                Precedes given file settings) := by
  refine ⟨sources_of_readArguments accepted, ?_⟩
  cases named : fileOf given with
  | none => exact .inl ⟨rfl, loadSettings_of_none named⟩
  | some path =>
      refine .inr ⟨path, rfl, ?_⟩
      intro content file found read
      exact ⟨isSome_of_settingsOf read, _, loadSettings_of_some named found read, precedes_combine given file⟩

/-- A file with a missing value. -/
def overriddenYaml : String := "audit_index: ~\nlog_level: trace\nrpc_port: 9000\nshare_threshold: 20\n"

/-- A name without an extension. -/
theorem hasExtension_letter : FilePath.hasExtension "json" "c" = false := by
  have whole : ∀ separator ∈ ["/", "."], "c".splitOn separator = ["c"] := by
    simp only [List.forall_mem_cons, List.not_mem_nil, false_implies, implies_true, and_true]
    constructor
    all_goals
      rw [String.splitOn, if_neg (by decide), String.splitOnAux, if_neg (by decide +kernel),
        if_neg (by decide +kernel), String.splitOnAux, if_pos (by decide +kernel)]
      decide +kernel
  rw [FilePath.hasExtension, FilePath.fileName?, FilePath.parts, whole "/" (by simp)]
  simp [FilePath.isVoid, whole "." (by simp)]

theorem settingsOf_letter (text : String) :
    settingsOf "c" (Utf8.encode text) = Settings.ofYaml text := by
  rw [settingsOf, Utf8.decode?_encode, hasExtension_letter]
  simp

theorem precedence_of_readArguments_of_null : ∃ given settings,
    readArguments ["--config-file", "c", "--rpc-port=7000"] (some "debug") = .ok given ∧
      loadSettings (m := Id) (fun _ => .ok (Utf8.encode overriddenYaml)) given = .ok settings ∧
        settings .rpcPort = (7000 : Nat) ∧ settings .logLevel = LogLevel.debug ∧
          settings .auditIndex = (none : Option Nat) ∧ settings .shareThreshold = (20 : Nat) ∧
            settings .maxRetries = (10 : Nat) := by
  have named : (readArguments ["--config-file", "c", "--rpc-port=7000"] (some "debug")).toOption.map
      (fun given => (fileOf given, (given .rpcPort : Option Nat), (given .logLevel : Option LogLevel))) =
      some (some "c", some 7000, some .debug) := by decide +kernel
  have unnamed : (readArguments ["--config-file", "c", "--rpc-port=7000"] (some "debug")).toOption.map
      (fun given => ((given .auditIndex : Option (Option Nat)), (given .shareThreshold : Option Nat),
        (given .maxRetries : Option Nat))) = some (none, none, none) := by decide +kernel
  have members : (Settings.ofYaml overriddenYaml).toOption.map
      (fun file => ((file .auditIndex : Option (Option Nat)), (file .shareThreshold : Option Nat),
        (file .maxRetries : Option Nat))) = some (some none, some 20, none) := by decide +kernel
  obtain ⟨given, accepted, seen⟩ := exists_eq_ok_of_map named
  obtain ⟨path, port, level⟩ := And.imp_right Prod.mk.inj (Prod.mk.inj seen)
  obtain ⟨_, same, seen⟩ := exists_eq_ok_of_map unnamed
  obtain ⟨audit, threshold, retries⟩ := And.imp_right Prod.mk.inj (Prod.mk.inj seen)
  rw [accepted] at same
  cases same
  obtain ⟨file, read, seen⟩ := exists_eq_ok_of_map members
  obtain ⟨fileAudit, fileThreshold, fileRetries⟩ := And.imp_right Prod.mk.inj (Prod.mk.inj seen)
  rcases precedence_of_readArguments accepted fun _ => .ok (Utf8.encode overriddenYaml) with
    ⟨_, ⟨none, _⟩ | ⟨other, some, loads⟩⟩
  · rw [path] at none
    cases none
  · rw [path] at some
    cases some
    obtain ⟨_, settings, loaded, precedes⟩ :=
      loads _ file rfl ((settingsOf_letter overriddenYaml).trans read)
    refine ⟨given, settings, accepted, loaded, precedes.ofGiven .rpcPort _ port,
      precedes.ofGiven .logLevel _ level, precedes.ofFile .auditIndex (by decide) audit _ fileAudit,
      precedes.ofFile .shareThreshold (by decide) threshold _ fileThreshold, ?_⟩
    rw [precedes.usual .maxRetries (by decide) retries fileRetries, Settings.ofGiven, retries]
    rfl

end Command

end MiningPool
