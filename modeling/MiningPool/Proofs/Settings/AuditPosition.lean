/-
Module: MiningPool.Proofs.Settings.AuditPosition
Purpose: which position is audited if one is given as an argument.
Main exports: Settings.FileDraws, Settings.auditPosition_of_passed
-/
import MiningPool.Proofs.Command.Values
import MiningPool.Proofs.Ledger.FixedPosition
import MiningPool.Proofs.Settings.Check
import MiningPool.Proofs.Settings.Precedence

/-!
The audited position comes from two settings, and each of them has its own source. An argument with a position
counts before the position of the file. But the file may still say that positions are to be drawn, and then the
position of the argument is without effect, and is not checked either. In all other cases it is the position
of all audits.
-/

namespace MiningPool.Settings

open Command

/-- The file that is named says that positions are to be drawn. -/
def FileDraws (files : String → Except FileFault (List UInt8)) (given : GivenSettings) : Prop :=
  ∃ path content file, fileOf given = some path ∧ files path = .ok content ∧
    settingsOf path content = .ok file ∧ file .auditFromSeed = some true

section

variable {files : String → Except FileFault (List UInt8)} {given : GivenSettings} {settings : Settings}
  {position : Nat}

/-- A position among the arguments is the one of the settings. -/
theorem auditIndex_of_given (loaded : loadSettings (m := Id) files given = .ok settings)
    (passed : given .auditIndex = some (some position)) : settings.auditIndex = some position := by
  rcases of_loadSettings loaded with ⟨_, rfl⟩ | ⟨_, _, file, _, _, _, rfl⟩
  · rw [auditIndex, ofGiven, passed]
    rfl
  · exact (precedes_combine given file).ofGiven .auditIndex _ passed

/-- If no argument says so, positions are drawn exactly if the file says so. -/
theorem auditFromSeed_iff (loaded : loadSettings (m := Id) files given = .ok settings)
    (unnamed : given .auditFromSeed = none) : settings.auditFromSeed = true ↔ FileDraws files given := by
  rcases of_loadSettings loaded with ⟨none, rfl⟩ | ⟨path, content, file, named, found, read, rfl⟩
  · have usual : (ofGiven given).auditFromSeed = false := by
      rw [auditFromSeed, ofGiven, unnamed]
      rfl
    rw [usual]
    refine iff_of_false Bool.false_ne_true ?_
    rintro ⟨path, _, _, named, _⟩
    rw [none] at named
    cases named
  · have precedes := precedes_combine given file
    have same : FileDraws files given ↔ file .auditFromSeed = some true := by
      constructor
      · rintro ⟨_, _, _, alsoNamed, alsoFound, alsoRead, draws⟩
        rw [named] at alsoNamed
        cases alsoNamed
        rw [found] at alsoFound
        cases alsoFound
        rw [read] at alsoRead
        cases alsoRead
        exact draws
      · intro draws
        exact ⟨path, content, file, named, found, read, draws⟩
    rw [same]
    cases told : file .auditFromSeed with
    | none =>
        have usual := precedes.usual .auditFromSeed (by decide) unnamed told
        rw [ofGiven, unnamed] at usual
        rw [auditFromSeed, usual]
        simp [Setting.default]
    | some draws =>
        rw [auditFromSeed, precedes.ofFile .auditFromSeed (by decide) unnamed _ told]
        simp

/-- The position of the arguments is in effect, unless positions are drawn. -/
theorem auditPosition_of_given (loaded : loadSettings (m := Id) files given = .ok settings)
    (passed : given .auditIndex = some (some position)) (unnamed : given .auditFromSeed = none) :
    (FileDraws files given → settings.auditPosition = none) ∧
      (¬FileDraws files given → settings.auditPosition = some position) := by
  have draws := auditFromSeed_iff loaded unnamed
  rw [← draws]
  constructor
  · intro drawn
    rw [auditPosition, if_pos drawn]
  · intro fixed
    rw [auditPosition, if_neg fixed, auditIndex_of_given loaded passed]

end

/-- The settings that accepted arguments with a position lead to, if none of them says that positions are to be
drawn. The position is the one of the settings whatever the file gives. If the file does not say that positions
are to be drawn, the position lies inside of every claim, and every audit of the ledger that the settings give
is about the share at the position. If the file says so, the contract is asked for the position in every
audit. -/
theorem auditPosition_of_passed {arguments : List String} {level : Option String} {given : GivenSettings}
    {text : String} {position : Nat} (accepted : readArguments arguments level = .ok given)
    (passes : Passes arguments .auditIndex text) (value : readNatural 64 text = .ok position)
    (fixed : ¬∃ argument ∈ arguments, Names argument .auditFromSeed)
    (files : String → Except FileFault (List UInt8)) (settings : Settings)
    (loaded : checkedSettings (m := Id) files given = .ok settings) :
    settings.auditIndex = some position ∧
      (¬FileDraws files given → settings.auditPosition = some position ∧ position < settings.shareThreshold ∧
        ∀ home, ∃ ledgerSettings, settings.ledger home = .ok ledgerSettings ∧
          Ledger.AuditsAt ledgerSettings position) ∧
      (FileDraws files given → settings.auditPosition = none ∧
        ∀ home, ∃ ledgerSettings, settings.ledger home = .ok ledgerSettings ∧
          ∀ target : AuditTarget, target.claim.size ≠ 0 → Audit.choose ledgerSettings target =
            .inl (.seeding target (Retry.start ledgerSettings.retry))) := by
  obtain ⟨loads, checked⟩ := checkedSettings_eq_ok.1 loaded
  have takesOne : TakesOne .auditIndex := ⟨SettingKind.noConfusion, fun _ => SettingKind.noConfusion⟩
  have read : readValue Setting.auditIndex.kind text = .ok (some position) := by
    simp only [readValue, value]
    rfl
  have passed : given .auditIndex = some (some position) := given_of_passes takesOne accepted passes read
  have unnamed : given .auditFromSeed = none := by
    rw [← Option.not_isSome_iff_eq_none, (sources_of_readArguments accepted).isSome_iff]
    rintro (named | ⟨⟨⟩, _⟩)
    exact fixed named
  obtain ⟨drawn, notDrawn⟩ := auditPosition_of_given loads passed unnamed
  refine ⟨auditIndex_of_given loads passed, ?_, ?_⟩
  · intro fixes
    have inEffect := notDrawn fixes
    obtain ⟨_, inside, _⟩ := of_check_eq_ok checked
    refine ⟨inEffect, inside position inEffect, ?_⟩
    intro home
    obtain ⟨ledgerSettings, made, _⟩ := exists_workable checked home
    obtain ⟨_, same, _⟩ := of_ledger_eq_ok made
    exact ⟨ledgerSettings, made, Ledger.auditsAt_of_fixed (same.trans inEffect)⟩
  · intro draws
    have without := drawn draws
    refine ⟨without, ?_⟩
    intro home
    obtain ⟨ledgerSettings, made, _⟩ := exists_workable checked home
    obtain ⟨_, same, _⟩ := of_ledger_eq_ok made
    exact ⟨ledgerSettings, made, fun target => Audit.choose_of_drawn (same.trans without)⟩

/-- A position beyond the usual claims, and a file after which it does not count. -/
def drawnArguments : List String := ["--config-file", "c", "--audit-index", "20"]

def drawnYaml : String := "audit_from_seed: true\n"

theorem passes_drawnArguments : Passes drawnArguments .auditIndex "20" := by
  have split : drawnArguments = ["--config-file", "c"] ++ "--audit-index" :: "20" :: [] := rfl
  refine .following split (by decide +kernel) ?_
  intro letter rest same
  have first : "20".toList.head? = some '2' := by decide +kernel
  rw [same] at first
  simp at first

theorem auditPosition_of_passed_drawn : ∃ given settings,
    readArguments drawnArguments none = .ok given ∧ Passes drawnArguments .auditIndex "20" ∧
      readNatural 64 "20" = .ok 20 ∧ (¬∃ argument ∈ drawnArguments, Names argument .auditFromSeed) ∧
      checkedSettings (m := Id) (fun _ => .ok (Utf8.encode drawnYaml)) given = .ok settings ∧
      settings.auditIndex = some 20 ∧ settings.auditPosition = none := by
  have named : (readArguments drawnArguments none).toOption.map fileOf = some (some "c") := by decide +kernel
  have draws : (ofYaml drawnYaml).toOption.map (fun file => (file .auditFromSeed : Option Bool)) =
      some (some true) := by decide +kernel
  have passed : ((readArguments drawnArguments none).toOption.bind fun given =>
      (ofYaml drawnYaml).toOption.map fun file => (combine given file).check.toOption) = some (some ()) := by
    decide +kernel
  have value : readNatural 64 "20" = .ok 20 := by decide +kernel
  have fixed : ¬∃ argument ∈ drawnArguments, Names argument .auditFromSeed := by
    simp only [names_iff]
    decide +kernel
  obtain ⟨given, accepted, path⟩ := exists_eq_ok_of_map named
  obtain ⟨file, read, told⟩ := exists_eq_ok_of_map draws
  have check : (combine given file).check = .ok () := by
    rw [accepted, read] at passed
    exact eq_ok_of_toOption (Option.some.inj passed)
  have settingsOf_c : settingsOf "c" (Utf8.encode drawnYaml) = .ok file := (settingsOf_letter drawnYaml).trans read
  have loaded : checkedSettings (m := Id) (fun _ => .ok (Utf8.encode drawnYaml)) given =
      .ok (combine given file) := checkedSettings_eq_ok.2 ⟨loadSettings_of_some path rfl settingsOf_c, check⟩
  obtain ⟨index, _, drawn⟩ := auditPosition_of_passed accepted passes_drawnArguments value fixed _ _ loaded
  have fileDraws : FileDraws (fun _ => .ok (Utf8.encode drawnYaml)) given :=
    ⟨_, _, file, path, rfl, settingsOf_c, told⟩
  exact ⟨given, _, accepted, passes_drawnArguments, value, fixed, loaded, index, (drawn fileDraws).1⟩

end MiningPool.Settings
