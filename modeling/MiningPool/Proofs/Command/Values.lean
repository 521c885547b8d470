/-
Module: MiningPool.Proofs.Command.Values
Purpose: the value of an option is the one that stands behind it.
Main exports: Command.Passes, Command.Progress.Carries, Command.given_of_passes
-/
import MiningPool.Proofs.Command.Arguments

/-!
An option that takes a single value has it in its own argument, behind an equals sign, or in the next one. In
the latter case it waits with its value for the next option or the end. Either way it carries the value from
then on, because the value is never replaced: a second one would be refused.
-/

namespace MiningPool.Command

/-- A text is passed as the value of an option: behind an equals sign, or as the next argument, which then is
no option itself. -/
inductive Passes (arguments : List String) (setting : Setting) (text : String) : Prop where
  | attached {argument : String} (member : argument ∈ arguments)
      (spelled : argument.toList = '-' :: '-' :: ((optionName setting).toList ++ '=' :: text.toList)) :
      Passes arguments setting text
  | following {before after : List String} {argument : String}
      (split : arguments = before ++ argument :: text :: after)
      (spelled : argument.toList = '-' :: '-' :: (optionName setting).toList)
      (word : ∀ letter rest, text.toList ≠ '-' :: letter :: rest) : Passes arguments setting text

/-! ### The forms of arguments -/

theorem Argument.splitValue_attached (setting : Setting) (value : List Char) :
    splitValue ((optionName setting).toList ++ '=' :: value) =
      (optionName setting, some (String.ofList value)) := by
  obtain ⟨_, plain, _⟩ := optionName_facts setting setting.mem_all
  have all := List.all_eq_true.1 plain
  rw [splitValue, List.dropWhile_append_of_pos all, List.takeWhile_append_of_pos all]
  simp

theorem Argument.splitValue_alone (setting : Setting) :
    splitValue (optionName setting).toList = (optionName setting, none) := by
  obtain ⟨_, plain, _⟩ := optionName_facts setting setting.mem_all
  have none := @List.dropWhile_append_of_pos _ (· != '=') _ [] (List.all_eq_true.1 plain)
  rw [List.append_nil, List.dropWhile_nil] at none
  rw [splitValue, none]
  simp

theorem Argument.ofText_long {argument : String} {setting : Setting} {value : List Char}
    (spelled : argument.toList = '-' :: '-' :: ((optionName setting).toList ++ value)) :
    ofText argument = .long (splitValue ((optionName setting).toList ++ value)).1
      (splitValue ((optionName setting).toList ++ value)).2 := by
  obtain ⟨nonempty, _, _⟩ := optionName_facts setting setting.mem_all
  cases name : (optionName setting).toList with
  | nil => exact absurd name nonempty
  | cons first rest =>
      rw [ofText, spelled, name]
      rfl

theorem Argument.ofText_word {text : String} (word : ∀ letter rest, text.toList ≠ '-' :: letter :: rest) :
    ofText text = .word text := by
  rw [ofText]
  split
  · rename_i form
    exact absurd form (word _ _)
  · rename_i form
    exact absurd form (word _ _)
  · rename_i form
    exact absurd form (word _ _)
  · rfl

/-! ### Single values -/

/-- The setting takes one value, and no more. -/
def TakesOne (setting : Setting) : Prop := setting.kind ≠ .flag ∧ ∀ bits, setting.kind ≠ .naturals bits

theorem addValues_none {kind : SettingKind} (single : ∀ bits, kind ≠ .naturals bits) (text : String) :
    addValues kind none [text] = readValue kind text := by
  cases kind with
  | naturals bits => exact absurd rfl (single bits)
  | _ => rfl

/-- A second value is refused. -/
theorem addValues_some {kind : SettingKind} (single : ∀ bits, kind ≠ .naturals bits) (value : kind.Value)
    (texts : List String) : ∃ stop, addValues kind (some value) texts = .error stop := by
  cases texts with
  | nil => exact ⟨_, by rw [addValues]⟩
  | cons text texts =>
      cases kind with
      | naturals bits => exact absurd rfl (single bits)
      | _ => exact ⟨_, rfl⟩

namespace Progress

variable {progress after : Progress} {setting other : Setting} {text : String} {value : setting.kind.Value}

/-- A setting has a value, or waits with nothing but the text of the value. -/
def Carries (progress : Progress) (setting : Setting) (text : String) (value : setting.kind.Value) : Prop :=
  progress.given setting = some value ∨ progress.pending = some ⟨setting, [text]⟩

theorem given_of_give (takesOne : TakesOne setting) (read : readValue setting.kind text = .ok value)
    (given : progress.give setting [text] = .ok after) : after.given setting = some value := by
  obtain ⟨own, added, given⟩ := bind_eq_ok.1 given
  cases given
  cases before : progress.given setting with
  | none =>
      rw [before, addValues_none takesOne.2, read] at added
      cases added
      exact GivenSettings.set_self ..
  | some earlier =>
      obtain ⟨stop, refused⟩ := addValues_some takesOne.2 earlier [text]
      rw [before, refused] at added
      cases added

theorem keeps_give {values : List String} (takesOne : TakesOne setting)
    (kept : progress.given setting = some value) (given : progress.give other values = .ok after) :
    after.given setting = some value := by
  obtain ⟨own, added, given⟩ := bind_eq_ok.1 given
  cases given
  by_cases same : setting = other
  · subst same
    obtain ⟨stop, refused⟩ := addValues_some takesOne.2 value values
    rw [kept, refused] at added
    cases added
  · exact (GivenSettings.set_of_ne _ _ same).trans kept

/-- Once an option has been completed, it has the value that it carries. -/
theorem given_of_settle (takesOne : TakesOne setting) (read : readValue setting.kind text = .ok value)
    (carries : progress.Carries setting text value) (settled : progress.settle = .ok after) :
    after.given setting = some value := by
  rw [settle] at settled
  split at settled
  · rename_i none
    cases settled
    rcases carries with kept | waiting
    · exact kept
    · rw [none] at waiting
      cases waiting
  · rename_i pending some
    rcases carries with kept | waiting
    · have kept : ({ progress with pending := none } : Progress).given setting = .some value := kept
      exact keeps_give takesOne kept settled
    · rw [some] at waiting
      cases waiting
      exact given_of_give takesOne read settled

theorem given_of_readOption {option : OptionName} {attached : Option String} (takesOne : TakesOne setting)
    (read : readValue setting.kind text = .ok value) (carries : progress.Carries setting text value)
    (done : progress.readOption option attached = .ok after) : after.given setting = some value := by
  have given : ∀ {between : Progress}, progress.settle = .ok between → between.given setting = some value :=
    fun settled => given_of_settle takesOne read carries settled
  cases option with
  | inquiry inquiry =>
      cases attached with
      | some _ => cases done
      | none => cases inquiry <;> obtain ⟨_, _, stops⟩ := bind_eq_ok.1 done <;> cases stops
  | setting other =>
      simp only [readOption] at done
      split at done
      · cases done
      · obtain ⟨between, settled, done⟩ := bind_eq_ok.1 done
        exact keeps_give takesOne (given settled) done
      · obtain ⟨between, settled, done⟩ := bind_eq_ok.1 done
        exact keeps_give takesOne (given settled) done
      · obtain ⟨between, settled, done⟩ := bind_eq_ok.1 done
        cases done
        have kept := given settled
        exact kept

theorem carries_readWord {argument : String} (takesOne : TakesOne setting)
    (carries : progress.Carries setting text value) (done : progress.readWord argument = .ok after) :
    after.Carries setting text value := by
  rw [readWord] at done
  split at done
  · cases done
  · rename_i pending some
    split at done
    · rename_i more
      cases done
      rcases carries with kept | waiting
      · exact .inl kept
      · -- With its value, the option takes no further one.
        rw [some] at waiting
        cases waiting
        rw [Pending.takesMore] at more
        split at more
        · rename_i bits isList
          exact absurd isList (takesOne.2 bits)
        · cases more
    · cases done

/-- What an option carries it keeps, whatever is read. -/
theorem carries_readArgument {argument : String} (takesOne : TakesOne setting)
    (read : readValue setting.kind text = .ok value) (carries : progress.Carries setting text value)
    (done : progress.readArgument argument = .ok after) : after.Carries setting text value := by
  rw [readArgument] at done
  split at done
  · cases done
  cases form : Argument.ofText argument with
  | separator =>
      rw [form] at done
      cases done
      exact carries
  | long name attached =>
      rw [form] at done
      dsimp only at done
      cases found : OptionName.ofName? name with
      | none =>
          rw [found] at done
          cases done
      | some option =>
          rw [found] at done
          exact .inl (given_of_readOption takesOne read carries done)
  | short letter rest =>
      rw [form] at done
      dsimp only [readLetter] at done
      rcases found : OptionName.ofLetter? letter with _ | other | inquiry
      · rw [found] at done
        cases done
      · rw [found] at done
        exact .inl (given_of_readOption takesOne read carries done)
      · rw [found] at done
        exact .inl (given_of_readOption takesOne read carries done)
  | word own =>
      rw [form] at done
      exact carries_readWord takesOne carries done

theorem carries_foldlM {arguments : List String} (takesOne : TakesOne setting)
    (read : readValue setting.kind text = .ok value) (carries : progress.Carries setting text value)
    (done : arguments.foldlM readArgument progress = .ok after) : after.Carries setting text value := by
  induction arguments generalizing progress with
  | nil =>
      cases done
      exact carries
  | cons argument arguments ih =>
      rw [List.foldlM_cons] at done
      obtain ⟨between, first, done⟩ := bind_eq_ok.1 done
      exact ih (carries_readArgument takesOne read carries first) done

theorem readOption_attached (takesOne : TakesOne setting) (progress : Progress) (text : String) :
    progress.readOption (.setting setting) (some text) = progress.settle >>= (·.give setting [text]) := by
  simp only [readOption]
  split
  · rename_i isFlag _
    exact absurd isFlag takesOne.1
  · rename_i none
    cases none
  · rename_i same _
    cases same
    rfl
  · rename_i none _
    cases none

theorem readOption_alone (takesOne : TakesOne setting) (progress : Progress) :
    progress.readOption (.setting setting) none =
      progress.settle >>= fun done => .ok { done with pending := some ⟨setting, []⟩ } := by
  simp only [readOption]
  split
  · rename_i some
    cases some
  · rename_i isFlag _
    exact absurd isFlag takesOne.1
  · rename_i some _
    cases some
  · rfl

/-- Behind an equals sign, the value is taken at once. -/
theorem carries_of_attached {argument : String} (takesOne : TakesOne setting)
    (read : readValue setting.kind text = .ok value)
    (spelled : argument.toList = '-' :: '-' :: ((optionName setting).toList ++ '=' :: text.toList))
    (done : progress.readArgument argument = .ok after) : after.Carries setting text value := by
  obtain ⟨_, _, named⟩ := optionName_facts setting setting.mem_all
  rw [readArgument] at done
  split at done
  · cases done
  simp only [Argument.ofText_long spelled, Argument.splitValue_attached, named, String.ofList_toList,
    readOption_attached takesOne] at done
  obtain ⟨between, settled, given⟩ := bind_eq_ok.1 done
  exact .inl (given_of_give takesOne read given)

/-- In the next argument, the value waits with its option. -/
theorem carries_of_following {between : Progress} {argument : String} (takesOne : TakesOne setting)
    (spelled : argument.toList = '-' :: '-' :: (optionName setting).toList)
    (word : ∀ letter rest, text.toList ≠ '-' :: letter :: rest)
    (first : progress.readArgument argument = .ok between)
    (second : between.readArgument text = .ok after) : after.Carries setting text value := by
  obtain ⟨_, _, named⟩ := optionName_facts setting setting.mem_all
  have waits : between.pending = some ⟨setting, []⟩ := by
    rw [← List.append_nil (optionName setting).toList] at spelled
    rw [readArgument] at first
    split at first
    · cases first
    simp only [Argument.ofText_long spelled, List.append_nil, Argument.splitValue_alone, named,
      readOption_alone takesOne] at first
    obtain ⟨done, settled, same⟩ := bind_eq_ok.1 first
    cases same
    rfl
  rw [readArgument] at second
  split at second
  · cases second
  simp only [Argument.ofText_word word, readWord, waits] at second
  split at second
  · cases second
    exact .inr rfl
  · cases second

end Progress

/-- With accepted arguments, a setting that takes a single value is given the value that is passed. -/
theorem given_of_passes {arguments : List String} {level : Option String} {given : GivenSettings}
    {setting : Setting} {text : String} {value : setting.kind.Value} (takesOne : TakesOne setting)
    (accepted : readArguments arguments level = .ok given) (passes : Passes arguments setting text)
    (read : readValue setting.kind text = .ok value) : given setting = some value := by
  obtain ⟨progress, folded, accepted⟩ := bind_eq_ok.1 accepted
  obtain ⟨done, settled, accepted⟩ := bind_eq_ok.1 accepted
  obtain ⟨completed, completes, accepted⟩ := bind_eq_ok.1 accepted
  obtain ⟨_, needs, accepted⟩ := bind_eq_ok.1 accepted
  cases accepted
  have carries : progress.Carries setting text value := by
    cases passes with
    | attached member spelled =>
        obtain ⟨before, after, rfl⟩ := List.append_of_mem member
        rw [List.foldlM_append] at folded
        obtain ⟨start, _, folded⟩ := bind_eq_ok.1 folded
        rw [List.foldlM_cons] at folded
        obtain ⟨between, first, folded⟩ := bind_eq_ok.1 folded
        exact Progress.carries_foldlM takesOne read
          (Progress.carries_of_attached takesOne read spelled first) folded
    | following split spelled word =>
        rw [split, List.foldlM_append] at folded
        obtain ⟨start, _, folded⟩ := bind_eq_ok.1 folded
        rw [List.foldlM_cons] at folded
        obtain ⟨between, first, folded⟩ := bind_eq_ok.1 folded
        rw [List.foldlM_cons] at folded
        obtain ⟨behind, second, folded⟩ := bind_eq_ok.1 folded
        exact Progress.carries_foldlM takesOne read
          (Progress.carries_of_following takesOne spelled word first second) folded
  have kept : done.given setting = some value := Progress.given_of_settle takesOne read carries settled
  -- The environment gives a log level only if there is none.
  rcases withEnvironment_eq_ok completes with ⟨rfl, _⟩ | ⟨_, level, unnamed, _, _, rfl⟩
  · exact kept
  · have other : setting ≠ .logLevel := by
      intro same
      subst same
      rw [unnamed] at kept
      cases kept
    exact (GivenSettings.set_of_ne _ _ other).trans kept

end MiningPool.Command
