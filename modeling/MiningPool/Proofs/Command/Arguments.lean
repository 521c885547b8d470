/-
Module: MiningPool.Proofs.Command.Arguments
Purpose: which settings the arguments and the environment give.
Main exports: Command.Names, Command.names_iff, Command.Sources, Command.sources_of_readArguments
-/
import MiningPool.Command.Arguments
import MiningPool.Proofs.Json.Record

/-!
An argument that begins with a dash is never the value of an option, so it can be told from each argument by
itself which setting it names. While the arguments are read, a setting has been named if it has been given a
value or waits for one; reading an argument adds the setting that it names, and nothing else.
-/

namespace MiningPool

/-! ### Settings that are given -/

theorem GivenSettings.isSome_set {given : GivenSettings} {setting other : Setting}
    {value : setting.kind.Value} :
    (given.set setting value other).isSome = true ↔ other = setting ∨ (given other).isSome = true := by
  by_cases same : other = setting
  · subst same
    simp
  · simp [GivenSettings.set_of_ne given value same, same]

namespace Command

/-! ### Options -/

/-- An argument names a setting: as `--name`, perhaps with a value behind an equals sign, or as `-l`. -/
inductive Names (argument : String) : Setting → Prop where
  | long {setting : Setting} (value : List Char) (attached : value = [] ∨ ∃ text, value = '=' :: text)
      (spelled : argument.toList = '-' :: '-' :: ((optionName setting).toList ++ value)) :
      Names argument setting
  | short (value : List Char) (spelled : argument.toList = '-' :: 'l' :: value) : Names argument .logLevel

theorem optionName_facts : ∀ setting ∈ Setting.all, (optionName setting).toList ≠ [] ∧
    (optionName setting).toList.all (· != '=') = true ∧
    OptionName.ofName? (optionName setting) = some (.setting setting) := by
  decide +kernel

theorem OptionName.ofName?_eq_some {name : String} {setting : Setting} :
    ofName? name = some (.setting setting) ↔ name = optionName setting := by
  constructor
  · intro found
    unfold ofName? at found
    split at found
    · cases found
    · split at found
      · cases found
      · obtain ⟨other, found, ⟨⟩⟩ := Option.map_eq_some_iff.1 found
        have same := List.find?_some found
        exact (of_decide_eq_true same).symm
  · rintro rfl
    exact (optionName_facts setting setting.mem_all).2.2

theorem OptionName.ofLetter?_eq_some {letter : Char} {setting : Setting} :
    ofLetter? letter = some (.setting setting) ↔ letter = 'l' ∧ setting = .logLevel := by
  unfold ofLetter?
  split
  · simp_all
  · split
    · simp_all
    · split <;> simp_all [eq_comm]

theorem Argument.splitValue_eq {text : List Char} {setting : Setting} :
    (splitValue text).1 = optionName setting ↔
      ∃ value, (value = [] ∨ ∃ rest, value = '=' :: rest) ∧ text = (optionName setting).toList ++ value := by
  have name : (splitValue text).1.toList = text.takeWhile (· != '=') := by
    unfold splitValue
    split
    · rename_i none
      have whole := @List.takeWhile_append_dropWhile _ (· != '=') text
      rw [none, List.append_nil] at whole
      exact String.toList_ofList.trans whole.symm
    · exact String.toList_ofList
  obtain ⟨_, plain, _⟩ := optionName_facts setting setting.mem_all
  rw [← String.toList_inj, name]
  constructor
  · intro same
    refine ⟨text.dropWhile (· != '='), ?_, ?_⟩
    · cases left : text.dropWhile (· != '=') with
      | nil => exact .inl rfl
      | cons c rest =>
          have stopped := List.head?_dropWhile_not (· != '=') text
          rw [left] at stopped
          simp at stopped
          exact .inr ⟨rest, by rw [stopped]⟩
    · rw [← same, List.takeWhile_append_dropWhile]
  · rintro ⟨value, attached, rfl⟩
    rw [List.takeWhile_append_of_pos (List.all_eq_true.1 plain)]
    rcases attached with rfl | ⟨rest, rfl⟩ <;> simp

/-- The option that an argument is, if it is one. -/
def Argument.option? : Argument → Option OptionName
  | long name _ => OptionName.ofName? name
  | short letter _ => OptionName.ofLetter? letter
  | separator => none
  | word _ => none

theorem names_iff_toList {text : String} {setting : Setting} : Names text setting ↔
    (∃ rest, text.toList = '-' :: '-' :: rest ∧ (Argument.splitValue rest).1 = optionName setting) ∨
      setting = .logLevel ∧ ∃ rest, text.toList = '-' :: 'l' :: rest := by
  constructor
  · rintro (⟨value, attached, spelled⟩ | ⟨value, spelled⟩)
    · exact .inl ⟨_, spelled, Argument.splitValue_eq.2 ⟨value, attached, rfl⟩⟩
    · exact .inr ⟨rfl, value, spelled⟩
  · rintro (⟨rest, spelled, same⟩ | ⟨rfl, value, spelled⟩)
    · obtain ⟨value, attached, rfl⟩ := Argument.splitValue_eq.1 same
      exact .long value attached spelled
    · exact .short value spelled

/-- What an argument names shows by its form. -/
theorem names_iff {text : String} {setting : Setting} :
    Names text setting ↔ (Argument.ofText text).option? = some (.setting setting) := by
  obtain ⟨nonempty, _, _⟩ := optionName_facts setting setting.mem_all
  rw [names_iff_toList, Argument.ofText]
  split
  · rename_i form
    refine iff_of_false ?_ (by rintro ⟨⟩)
    rw [form]
    -- Two dashes alone are no option, because every option has a name.
    rintro (⟨rest, ⟨⟩, same⟩ | ⟨_, _, ⟨⟩⟩)
    exact nonempty (congrArg String.toList same).symm
  · rename_i rest _ form
    simp [form, Argument.option?, OptionName.ofName?_eq_some]
  · rename_i letter rest _ single form
    have single : letter ≠ '-' := single
    simp [form, Argument.option?, OptionName.ofLetter?_eq_some, single, and_comm]
  · rename_i notShort
    refine iff_of_false ?_ (by rintro ⟨⟩)
    rintro (⟨rest, spelled, _⟩ | ⟨_, rest, spelled⟩)
    · exact notShort _ _ spelled
    · exact notShort _ _ spelled

/-! ### Reading -/

namespace Progress

variable {progress after : Progress} {setting other : Setting}

/-- A setting has a value or waits for one. -/
def Has (progress : Progress) (setting : Setting) : Prop :=
  (progress.given setting).isSome = true ∨ ∃ values, progress.pending = some ⟨setting, values⟩

theorem has_give {values : List String} (given : progress.give setting values = .ok after) :
    after.pending = progress.pending ∧ (after.Has other ↔ progress.Has other ∨ other = setting) := by
  obtain ⟨value, _, given⟩ := bind_eq_ok.1 given
  cases given
  refine ⟨rfl, ?_⟩
  rw [Has, Has, GivenSettings.isSome_set, or_assoc, or_comm]

/-- An option that has waited has its value. -/
theorem has_settle (settled : progress.settle = .ok after) :
    after.pending = none ∧ (after.Has other ↔ progress.Has other) := by
  rw [settle] at settled
  split at settled
  · rename_i none
    cases settled
    exact ⟨none, Iff.rfl⟩
  · rename_i pending waiting
    obtain ⟨none, has⟩ := @has_give _ _ _ other _ settled
    refine ⟨none, has.trans ?_⟩
    obtain ⟨setting, values⟩ := pending
    simp [Has, waiting, eq_comm (a := other)]

/-- After an inquiry nothing is read; any other option gives its setting a value, or lets it wait for one. -/
theorem has_readOption {option : OptionName} {value : Option String}
    (read : progress.readOption option value = .ok after) :
    after.Has other ↔ progress.Has other ∨ option = .setting other := by
  cases option with
  | inquiry inquiry =>
      cases value with
      | some text => cases read
      | none => cases inquiry <;> obtain ⟨_, _, stops⟩ := bind_eq_ok.1 read <;> cases stops
  | setting setting =>
      have gives : ∀ {texts : List String}, (progress.settle >>= (·.give setting texts)) = .ok after →
          (after.Has other ↔ progress.Has other ∨ OptionName.setting setting = .setting other) := by
        intro texts read
        obtain ⟨between, settled, given⟩ := bind_eq_ok.1 read
        rw [(has_give given).2, (has_settle settled).2, OptionName.setting.injEq, eq_comm (a := other)]
      simp only [readOption] at read
      split at read
      · cases read
      · exact gives read
      · exact gives read
      · obtain ⟨between, settled, waits⟩ := bind_eq_ok.1 read
        obtain ⟨none, has⟩ := @has_settle _ _ other settled
        cases waits
        rw [← has]
        simp [Has, none]

theorem has_readWord {text : String} (read : progress.readWord text = .ok after) :
    after.Has other ↔ progress.Has other := by
  rw [readWord] at read
  split at read
  · cases read
  · rename_i pending waiting
    obtain ⟨setting, values⟩ := pending
    split at read
    · cases read
      simp [Has, waiting]
    · cases read

theorem has_readArgument {text : String} (read : progress.readArgument text = .ok after) :
    after.Has other ↔ progress.Has other ∨ Names text other := by
  rw [names_iff]
  rw [readArgument] at read
  split at read
  · cases read
  cases form : Argument.ofText text with
  | separator =>
      rw [form] at read
      cases read
      simp [Has, Argument.option?]
  | long name value =>
      rw [form] at read
      dsimp only at read
      rw [Argument.option?]
      cases found : OptionName.ofName? name with
      | none =>
          rw [found] at read
          cases read
      | some option =>
          rw [found] at read
          rw [has_readOption read, Option.some.injEq]
  | short letter rest =>
      rw [form] at read
      dsimp only [readLetter] at read
      rw [Argument.option?]
      rcases found : OptionName.ofLetter? letter with _ | setting | inquiry
      · rw [found] at read
        cases read
      · rw [found] at read
        rw [has_readOption read, Option.some.injEq]
      · rw [found] at read
        rw [has_readOption read, Option.some.injEq]
  | word text =>
      rw [form] at read
      rw [has_readWord read]
      simp [Argument.option?]

theorem has_foldlM {arguments : List String}
    (read : arguments.foldlM readArgument progress = .ok after) :
    after.Has other ↔ progress.Has other ∨ ∃ argument ∈ arguments, Names argument other := by
  induction arguments generalizing progress with
  | nil =>
      cases read
      simp
  | cons argument arguments ih =>
      rw [List.foldlM_cons] at read
      obtain ⟨between, first, read⟩ := bind_eq_ok.1 read
      simp [ih read, has_readArgument first, or_assoc]

/-- Once all arguments have been read, the settings with values are those that arguments name. -/
theorem isSome_given_iff {arguments : List String}
    (folded : arguments.foldlM readArgument start = .ok progress)
    (settled : progress.settle = .ok after) :
    (after.given setting).isSome = true ↔ ∃ argument ∈ arguments, Names argument setting := by
  obtain ⟨none, has⟩ := @has_settle _ _ setting settled
  rw [has_foldlM folded, Has, none] at has
  simpa [Has, start, GivenSettings.empty] using has

end Progress

/-! ### Sources -/

/-- Where the values come from that the arguments and the environment give. -/
structure Sources (arguments : List String) (level : Option String) (given : GivenSettings) : Prop where
  /-- The settings are those that arguments name, and the log level if the environment has one. -/
  isSome_iff : ∀ setting, (given setting).isSome = true ↔
    (∃ argument ∈ arguments, Names argument setting) ∨ setting = .logLevel ∧ level.isSome = true
  /-- The environment changes nothing about settings that arguments name. -/
  options : ∃ options, readArguments arguments none = .ok options ∧
    ∀ setting, (∃ argument ∈ arguments, Names argument setting) → given setting = options setting
  environment : (¬∃ argument ∈ arguments, Names argument .logLevel) → ∀ text, level = some text →
    ∃ value : LogLevel, Choice.named? text = some value ∧ given .logLevel = some value

variable {arguments : List String} {level : Option String} {options given : GivenSettings}

/-- The environment counts for the log level only, and only if no argument gives it. -/
theorem withEnvironment_eq_ok (completed : withEnvironment options level = .ok given) :
    (given = options ∧ ((options .logLevel).isSome = true ∨ level = none)) ∨
      ∃ text, ∃ value : LogLevel, options .logLevel = none ∧ level = some text ∧
        Choice.named? text = some value ∧ given = options.set .logLevel value := by
  rw [withEnvironment.eq_def] at completed
  split at completed
  · rename_i text unnamed
    obtain ⟨value, read, completed⟩ := bind_eq_ok.1 completed
    cases completed
    simp only [readValue, readChoice] at read
    split at read
    · rename_i named
      cases read
      exact .inr ⟨text, value, unnamed, rfl, named, rfl⟩
    · cases read
  · rename_i others
    cases completed
    refine .inl ⟨rfl, ?_⟩
    cases option : options .logLevel with
    | some value => exact .inl rfl
    | none =>
        exact .inr (Option.eq_none_iff_forall_ne_some.2 fun text => others text option)

theorem checkNeeds_set (given : GivenSettings) (value : LogLevel) :
    checkNeeds (given.set .logLevel value) = checkNeeds given := by
  rw [checkNeeds, checkNeeds, GivenSettings.set_of_ne _ _ (by decide),
    GivenSettings.set_of_ne _ _ (by decide)]

theorem sources_of_readArguments (read : readArguments arguments level = .ok given) :
    Sources arguments level given := by
  obtain ⟨progress, folded, read⟩ := bind_eq_ok.1 read
  obtain ⟨done, settled, read⟩ := bind_eq_ok.1 read
  obtain ⟨completed, completes, read⟩ := bind_eq_ok.1 read
  obtain ⟨_, needs, read⟩ := bind_eq_ok.1 read
  cases read
  have named := fun setting => @Progress.isSome_given_iff _ _ setting _ folded settled
  have alone : checkNeeds done.given = .ok () → readArguments arguments none = .ok done.given := by
    intro needs
    have unchanged : withEnvironment done.given none = .ok done.given := by
      rw [withEnvironment.eq_def]
      cases done.given .logLevel <;> rfl
    exact bind_eq_ok.2 ⟨_, folded, bind_eq_ok.2 ⟨_, settled, bind_eq_ok.2 ⟨_, unchanged,
      bind_eq_ok.2 ⟨_, needs, rfl⟩⟩⟩⟩
  -- Either the environment adds nothing, or it gives the log level that no argument names.
  rcases withEnvironment_eq_ok completes with ⟨rfl, decided⟩ | ⟨text, value, unnamed, rfl, means, rfl⟩
  · refine ⟨?_, ⟨_, alone needs, fun setting _ => rfl⟩, ?_⟩
    · intro setting
      rw [named, iff_self_or]
      rintro ⟨rfl, some⟩
      rcases decided with isNamed | rfl
      · exact (named .logLevel).1 isNamed
      · cases some
    · rintro unnamed text rfl
      rcases decided with isNamed | ⟨⟨⟩⟩
      exact absurd ((named .logLevel).1 isNamed) unnamed
  · rw [checkNeeds_set] at needs
    refine ⟨?_, ⟨_, alone needs, ?_⟩, ?_⟩
    · intro setting
      rw [GivenSettings.isSome_set, named, or_comm]
      simp
    · intro setting isNamed
      refine GivenSettings.set_of_ne _ _ ?_
      rintro rfl
      rw [← named, unnamed] at isNamed
      cases isNamed
    · rintro _ _ ⟨⟩
      exact ⟨value, means, GivenSettings.set_self _ _ _⟩

end Command

end MiningPool
