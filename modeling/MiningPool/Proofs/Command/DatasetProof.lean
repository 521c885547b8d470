/-
Module: MiningPool.Proofs.Command.DatasetProof
Purpose: what a run prints that is asked for words of a dataset with their branches.
Main exports: Command.AsksForProof, Command.ProofLines, Command.ProofEnds, Command.proofEnds_of_run
-/
import MiningPool.Proofs.Dataset.Opening
import MiningPool.Proofs.Merkle.Registration
import MiningPool.Proofs.Settings.Precedence

/-!
Before anything is printed the settings have to be found, the file read, and the tree closed; a failure up to
there leaves no output. The root is printed next, and only then the branches of all positions are looked for.
So a position behind the last word is found out when the root has been printed already: neither the whole
proof is printed then nor nothing. With positions inside of the dataset nothing fails any more.
-/

namespace MiningPool.Command

open DatasetReader DatasetTree Merkle

/-! ### Lines -/

/-- The branch elements of a position are the hashes beside its path, in pairs. -/
def IsPacked (words : List Word) (position : Nat) (elements : List BranchElement) : Prop :=
  ∃ branch : Branch Word DatasetNode, IsBranch words (Nat.clog 2 words.length) position branch ∧
    elements = packPairs (branch.siblings.map (·.node.hash))

/-- The line of a root. -/
def rootLine (root : DatasetNode) : String := "root: " ++ root.hash.text

/-- The lines of a whole proof: the root of the plain tree over all words, then the word of every position,
then the branch elements of every position, as many as half of the levels of the tree, rounded up. Positions
keep their order and their repeats. -/
inductive ProofLines (words : List Word) (positions : List Nat) : List String → Prop where
  | intro {root : DatasetNode} {looked : List Word} {branches : List (List BranchElement)}
      (isRoot : plainRoot? (leaves words) = some root)
      (isWord : List.Forall₂ (fun position word => words[position]? = some word) positions looked)
      (isPacked : List.Forall₂ (IsPacked words) positions branches)
      (width : ∀ elements ∈ branches, elements.length = (Nat.clog 2 words.length + 1) / 2) :
      ProofLines words positions
        (rootLine root :: List.zipWith elementLine positions looked ++
          branches.flatten.map fun element => "branch: " ++ element.text)

section

variable {words : List Word} {positions : List Nat} {kept : Nat → Prop} {tree : DatasetTree}

theorem plainRoot?_of_complete (complete : Complete words kept tree) :
    plainRoot? (leaves words) = some tree.root := by
  rw [plainRoot?_eq, length_leaves, complete.root, List.head?_cons]

/-- If all positions lie inside, the whole proof is reported. -/
theorem proofReport_of_inside (complete : Complete words kept tree)
    (inTime : ∀ position ∈ tree.registered, position < words.length ∧ kept position) :
    ∃ lines, proofReport tree = (lines, none) ∧ ProofLines words tree.registered lines := by
  obtain ⟨branches, found, isBranch⟩ := complete.registeredBranches inTime
  have looked : tree.words = .ok (branches.map (·.element)) := by
    rw [DatasetTree.words, found]
    rfl
  have packed : tree.branchElements =
      .ok (branches.map fun branch => packPairs (branch.siblings.map (·.node.hash))).flatten := by
    rw [branchElements, found]
    rfl
  have isWord : List.Forall₂ (fun position word => words[position]? = some word) tree.registered
      (branches.map (·.element)) :=
    List.forall₂_map_right_iff.2 (isBranch.imp fun _ _ branch => branch.element)
  have isPacked : List.Forall₂ (IsPacked words) tree.registered
      (branches.map fun branch => packPairs (branch.siblings.map (·.node.hash))) :=
    List.forall₂_map_right_iff.2 (isBranch.imp fun _ branch here => ⟨branch, here, rfl⟩)
  have width : ∀ elements ∈ branches.map fun branch => packPairs (branch.siblings.map (·.node.hash)),
      elements.length = (Nat.clog 2 words.length + 1) / 2 := by
    intro elements member
    obtain ⟨branch, among, rfl⟩ := List.mem_map.1 member
    obtain ⟨lookup, here⟩ := List.getElem?_of_mem among
    obtain ⟨position, _, own⟩ := exists_getElem?_of_forall₂ isBranch.flip here
    have levels : branch.siblings.length = Nat.clog 2 words.length := own.path.length_siblings
    rw [DatasetSummary.length_packPairs, List.length_map, levels]
  have lines := ProofLines.intro (plainRoot?_of_complete complete) isWord isPacked width
  rw [← List.map_uncurry_zip_eq_zipWith] at lines
  refine ⟨_, ?_, lines⟩
  simp only [proofReport, looked, packed]
  rfl

/-- The first position that lies outside is reported behind the root. -/
theorem proofReport_of_outside {before after : List Nat} {position : Nat}
    (complete : Complete words kept tree) (registered : tree.registered = before ++ position :: after)
    (inTime : ∀ earlier ∈ before, earlier < words.length ∧ kept earlier)
    (outside : words.length ≤ position) :
    proofReport tree = ([rootLine tree.root], some (.tree (.noBranch position words.length))) := by
  have failed := complete.registeredBranches_eq_error registered inTime outside
  simp only [proofReport, DatasetTree.words, failed, bind, Except.bind]
  rfl

end

/-! ### Runs -/

/-- What is given asks for the words at some positions of a dataset file, and for nothing that goes before. -/
structure AsksForProof (given : GivenSettings) (path : String) (positions : List Nat) : Prop where
  info : Settings.ofGiven given .info = false
  printConfig : Settings.ofGiven given .printConfig = false
  datasetRoot : Settings.ofGiven given .datasetRoot = none
  datasetProof : Settings.ofGiven given .datasetProof = some path
  index : Settings.ofGiven given .index = positions

/-- A file holds a complete dataset of these words. -/
structure IsDataset (file : Except FileFault (List UInt8)) (words : List Word) : Prop where
  content : ∃ magic : FixedBytes 8, file = .ok (magic.toList ++ Word.concat words)
  nonempty : 0 < words.length
  few : words.length < wordLimit

theorem IsDataset.wordCount {file : Except FileFault (List UInt8)} {words : List Word} {content : List UInt8}
    (dataset : IsDataset file words) (found : file = .ok content) :
    WordCount content.length words.length := by
  obtain ⟨⟨magic, same⟩, _, few⟩ := dataset
  rw [found, Except.ok.injEq] at same
  rw [same, List.length_append, magic.length_toList, Word.length_concat]
  exact ⟨rfl, few⟩

/-- How a run ends that is asked for a proof, by the first thing that is missing. -/
inductive ProofEnds (files : String → Except FileFault (List UInt8)) (given : GivenSettings) (path : String)
    (positions : List Nat) : Outcome → Prop where
  | noSettings {error : Error} (refused : checkedSettings (m := Id) files given = .error error) :
      ProofEnds files given path positions (.ofError error)
  | noFile {settings : Settings} {fault : FileFault}
      (checked : checkedSettings (m := Id) files given = .ok settings) (missing : files path = .error fault) :
      ProofEnds files given path positions (.ofError (.file fault))
  | badLength {settings : Settings} {content : List UInt8} {fault : DatasetFault}
      (checked : checkedSettings (m := Id) files given = .ok settings) (found : files path = .ok content)
      (bad : BadLength content.length fault) :
      ProofEnds files given path positions (.ofError (.dataset fault))
  | noWords {settings : Settings} {content : List UInt8}
      (checked : checkedSettings (m := Id) files given = .ok settings) (found : files path = .ok content)
      (empty : WordCount content.length 0) : ProofEnds files given path positions (.ofError (.tree .noLeaves))
  | whole {settings : Settings} {words : List Word} {lines : List String}
      (checked : checkedSettings (m := Id) files given = .ok settings) (dataset : IsDataset (files path) words)
      (inside : ∀ position ∈ positions, position < words.length) (proof : ProofLines words positions lines) :
      ProofEnds files given path positions (.ofLines lines)
  /-- The root is printed, and then a position turns out to lie outside. -/
  | rootAlone {settings : Settings} {words : List Word} {root : DatasetNode} {before after : List Nat}
      {position : Nat} (checked : checkedSettings (m := Id) files given = .ok settings)
      (dataset : IsDataset (files path) words)
      (isRoot : plainRoot? (leaves words) = some root) (asked : positions = before ++ position :: after)
      (inside : ∀ earlier ∈ before, earlier < words.length) (outside : words.length ≤ position) :
      ProofEnds files given path positions
        ⟨rootLine root ++ "\n", .failed (.tree (.noBranch position words.length))⟩

section

variable {files : String → Except FileFault (List UInt8)} {given : GivenSettings} {path : String}
  {positions : List Nat} {settings : Settings}

/-- A file does not decide about what a run is asked for. -/
theorem AsksForProof.perform_eq (asks : AsksForProof given path positions)
    (checked : checkedSettings (m := Id) files given = .ok settings) :
    perform (m := Id) files settings =
      match DatasetTree.ofFile positions (files path) with
      | .error error => .ofError error
      | .ok tree => .ofReport (proofReport tree) := by
  have own : ∀ setting ∈ [Setting.info, .printConfig, .configFile, .datasetRoot, .datasetProof, .index],
      settings setting = Settings.ofGiven given setting := by
    rcases of_loadSettings (checkedSettings_eq_ok.1 checked).1 with ⟨_, rfl⟩ | ⟨_, _, file, _, _, _, rfl⟩
    · exact fun _ _ => rfl
    · exact (precedes_combine given file).own
  have info := (own .info (by decide)).trans asks.info
  have printConfig := (own .printConfig (by decide)).trans asks.printConfig
  have datasetRoot := (own .datasetRoot (by decide)).trans asks.datasetRoot
  have datasetProof := (own .datasetProof (by decide)).trans asks.datasetProof
  have index := (own .index (by decide)).trans asks.index
  simp only [perform, info, printConfig, datasetRoot, datasetProof, index, datasetTree, pure, bind]
  rfl

/-- With the file read as the tree over its words, it is the positions that decide. -/
theorem proofEnds_of_complete {words : List Word} {tree : DatasetTree}
    (checked : checkedSettings (m := Id) files given = .ok settings)
    (dataset : IsDataset (files path) words) (registered : tree.registered = positions)
    (complete : Complete words (fun place => place < words.length ∧ place ∈ positions) tree) :
    ProofEnds files given path positions (.ofReport (proofReport tree)) := by
  subst registered
  cases missing : tree.registered.find? (words.length ≤ ·) with
  | none =>
      have inside : ∀ position ∈ tree.registered, position < words.length := by
        intro position member
        simpa using List.find?_eq_none.1 missing position member
      obtain ⟨lines, report, proof⟩ := proofReport_of_inside complete
        fun position member => ⟨inside position member, inside position member, member⟩
      rw [report]
      exact .whole checked dataset inside proof
  | some position =>
      obtain ⟨beyond, before, after, split, earlier⟩ := List.find?_eq_some_iff_append.1 missing
      have inside : ∀ position ∈ before, position < words.length := by
        intro position member
        simpa using earlier position member
      have outside : words.length ≤ position := of_decide_eq_true beyond
      have report := proofReport_of_outside complete split (fun position member =>
        ⟨inside position member, inside position member, by simp [split, member]⟩) outside
      rw [report]
      exact .rootAlone checked dataset (plainRoot?_of_complete complete) split inside outside

theorem AsksForProof.proofEnds (asks : AsksForProof given path positions) {arguments : List String}
    {level : Option String} (accepted : readArguments arguments level = .ok given) :
    ProofEnds files given path positions (run (m := Id) files level arguments) := by
  rw [run, accepted]
  cases checked : checkedSettings (m := Id) files given with
  | error error =>
      simp only [bind, checked]
      exact .noSettings checked
  | ok settings =>
      have performed : perform (m := Id) files settings = _ := asks.perform_eq checked
      simp only [bind, checked, performed]
      cases found : files path with
      | error fault => exact .noFile checked found
      | ok content =>
          rw [DatasetTree.ofFile]
          rcases wordCount_or_badLength content.length with ⟨count, counted⟩ | ⟨fault, bad⟩
          · cases count with
            | zero =>
                rw [(ofContent_of_no_words counted).1]
                exact .noWords checked found counted
            | succ count =>
                have several : 0 < count + 1 := Nat.zero_lt_succ count
                obtain ⟨magic, words, tree, length, rfl, read, registered, complete⟩ :=
                  exists_ofContent_of_wordCount counted several positions
                rw [← length] at several counted
                rw [read]
                have dataset : IsDataset (files path) words := ⟨⟨magic, found⟩, several, counted.few⟩
                exact proofEnds_of_complete checked dataset registered complete
          · rw [ofContent_of_badLength bad]
            exact .badLength checked found bad

end

/-- A run that is asked for the words at some positions of a dataset file ends in one of these ways. Unless the
file is a complete dataset that lacks one of these positions, the run prints the whole proof, or it fails and
prints nothing. -/
theorem proofEnds_of_run {arguments : List String} {level : Option String} {given : GivenSettings}
    {path : String} {positions : List Nat} (accepted : readArguments arguments level = .ok given)
    (asks : AsksForProof given path positions) (files : String → Except FileFault (List UInt8)) :
    ProofEnds files given path positions (run (m := Id) files level arguments) ∧
      ((∀ words, IsDataset (files path) words → ∀ position ∈ positions, position < words.length) →
        ((run (m := Id) files level arguments).exitCode = 0 ∧ ∃ words lines, IsDataset (files path) words ∧
            ProofLines words positions lines ∧ run (m := Id) files level arguments = .ofLines lines) ∨
          (run (m := Id) files level arguments).exitCode = 1 ∧
            (run (m := Id) files level arguments).printed = "") := by
  have ends : ProofEnds files given path positions (run (m := Id) files level arguments) :=
    asks.proofEnds accepted
  refine ⟨ends, ?_⟩
  generalize run (m := Id) files level arguments = outcome at ends
  intro within
  cases ends with
  | noSettings | noFile | badLength | noWords => exact .inr ⟨rfl, rfl⟩
  | whole checked dataset inside proof => exact .inl ⟨rfl, _, _, dataset, proof, rfl⟩
  | rootAlone checked dataset isRoot asked inside outside =>
      subst asked
      exact absurd (within _ dataset _ (by simp)) (Nat.not_lt.2 outside)

/-- A dataset of one word. -/
def loneWord : List UInt8 := FixedBytes.toList (.zero 8) ++ Word.concat [.zero 128]

theorem length_loneWord : loneWord.length = 136 := by
  decide +kernel

def beyondArguments : List String := ["--dataset-proof", "d", "--index", "5"]

/-- The only word is at the first position, and the sixth one is asked for. -/
theorem proofEnds_of_lone_word : ∃ (given : GivenSettings) (root : DatasetNode),
    readArguments beyondArguments none = .ok given ∧ AsksForProof given "d" [5] ∧
      run (m := Id) (fun _ => .ok loneWord) none beyondArguments =
        ⟨rootLine root ++ "\n", .failed (.tree (.noBranch 5 1))⟩ := by
  have asked : (readArguments beyondArguments none).toOption.map
      (fun given => (fileOf given, (Settings.ofGiven given .info : Bool),
        (Settings.ofGiven given .printConfig : Bool), (Settings.ofGiven given .datasetRoot : Option String))) =
      some (none, false, false, none) := by decide +kernel
  have proving : (readArguments beyondArguments none).toOption.map
      (fun given => ((Settings.ofGiven given .datasetProof : Option String),
        (Settings.ofGiven given .index : List Nat), (Settings.ofGiven given).check.toOption)) =
      some (some "d", [5], some ()) := by decide +kernel
  obtain ⟨given, accepted, seen⟩ := exists_eq_ok_of_map asked
  obtain ⟨unnamed, info, printConfig, datasetRoot⟩ := by simpa only [Prod.mk.injEq] using seen
  obtain ⟨_, same, seen⟩ := exists_eq_ok_of_map proving
  rw [accepted, Except.ok.injEq] at same
  subst same
  obtain ⟨datasetProof, index, passed⟩ := by simpa only [Prod.mk.injEq] using seen
  have asks : AsksForProof given "d" [5] := ⟨info, printConfig, datasetRoot, datasetProof, index⟩
  have one : ∀ words, IsDataset (.ok loneWord) words → words.length = 1 := by
    intro words dataset
    have length := (dataset.wordCount rfl).length
    rw [length_loneWord, magicLength] at length
    omega
  have passes : (Settings.ofGiven given).check = .ok () := eq_ok_of_toOption passed
  have checked : checkedSettings (m := Id) (fun _ => .ok loneWord) given = .ok (Settings.ofGiven given) :=
    checkedSettings_eq_ok.2 ⟨loadSettings_of_none unnamed, passes⟩
  have ends := (proofEnds_of_run accepted asks fun _ => .ok loneWord).1
  generalize run (m := Id) (fun _ => .ok loneWord) none beyondArguments = outcome at ends
  cases ends with
  | noSettings refused =>
      rw [checked] at refused
      cases refused
  | noFile _ missing => cases missing
  | badLength _ found bad =>
      cases found
      rw [length_loneWord] at bad
      cases bad with
      | insideMagic short => exact absurd short (by decide)
      | partialWord _ _ cut => exact absurd rfl cut
      | tooManyWords many => exact absurd many (by decide)
  | noWords _ found empty =>
      cases found
      have length := empty.length
      rw [length_loneWord] at length
      cases length
  | whole _ dataset inside _ =>
      have outside := inside 5 (List.mem_singleton.2 rfl)
      rw [one _ dataset] at outside
      omega
  | @rootAlone _ words root before after position _ dataset _ split _ _ =>
      obtain rfl : position = 5 := by
        have member : position ∈ before ++ position :: after := by simp
        rw [← split] at member
        exact List.mem_singleton.1 member
      rw [one _ dataset]
      exact ⟨given, root, accepted, asks, rfl⟩

end MiningPool.Command
