/-
Module: MiningPool.Proofs.Claim.Gathering
Purpose: when the proof for a share is produced, what it shows, and why it is refused otherwise.
Main exports: Request, Request.Provable, Request.Refusal, Request.Shown, Request.gathered_exact
-/
import MiningPool.Proofs.Claim.Binding
import MiningPool.Proofs.Claim.Order
import MiningPool.Proofs.Claim.Selection
import MiningPool.Proofs.Dataset.Opening

/-!
The share is looked up first, then three questions are asked, and the last answer is the content of the
dataset file. Whatever is missing is found out in this order: the share, an answer, the right number of
bytes, a first word, and a word for every lookup. If nothing is missing there is a proof. The checks of the
branches never decide anything, because all branches lead to their roots.
-/

namespace MiningPool

/-! ### From the tree of a dataset to a proof -/

namespace VerificationProof

variable {audited : AuditedShare} {dataset : DatasetTree} {words : List Word} {kept : Nat → Prop}

/-- With a word for every lookup, there is a proof of these words in the order of the lookups. -/
theorem exists_assemble_eq_ok {claim : Claim} {index : Nat}
    (selected : AuditedShare.select claim index = .ok audited)
    (complete : Merkle.Complete words kept dataset)
    (inTime : ∀ position ∈ dataset.registered, position < words.length ∧ kept position) :
    ∃ proof, assemble audited dataset = .ok proof ∧
      ∃ looked : List Word,
        List.Forall₂ (fun position word => words[position]? = some word) dataset.registered looked ∧
        proof.datasetElements = looked.flatMap Word.integers := by
  obtain ⟨branches, found, isBranch⟩ := complete.registeredBranches inTime
  have checked := checkBranches_eq_ok complete found
  obtain ⟨counters, hashes, counterBranch, hashBranch⟩ := AuditedShare.exists_branches_eq selected
  have looked : List.Forall₂ (fun position word => words[position]? = some word) dataset.registered
      (branches.map (·.element)) :=
    List.forall₂_map_right_iff.2 (isBranch.imp fun _ _ branch => branch.element)
  simp only [assemble, checked, DatasetTree.words, DatasetTree.branchElements, found, counterBranch,
    hashBranch, bind, Except.bind]
  exact ⟨_, rfl, _, looked, rfl⟩

/-- The first lookup without a word is what a proof fails for. -/
theorem assemble_eq_error {before after : List Nat} {position : Nat}
    (complete : Merkle.Complete words kept dataset)
    (registered : dataset.registered = before ++ position :: after)
    (inTime : ∀ earlier ∈ before, earlier < words.length ∧ kept earlier)
    (outside : words.length ≤ position) :
    assemble audited dataset = .error (.tree (.noBranch position words.length)) := by
  have failed := complete.registeredBranches_eq_error registered inTime outside
  simp only [assemble, checkBranches, failed, bind, Except.bind]

/-- In the tree of a dataset, a branch that leads elsewhere is never found. -/
theorem checkBranches_ne_datasetBranch {positions : List Nat} {content : List UInt8}
    (read : DatasetTree.ofContent positions content = .ok dataset) (position : Nat) :
    checkBranches dataset ≠ .error (.tree (.datasetBranch position)) := by
  rcases DatasetTree.ofContent_cases positions content with
    ⟨error, refused, _⟩ | ⟨magic, words, own, rfl, built, registered, complete⟩
  · rw [refused] at read
    cases read
  rw [built, Except.ok.injEq] at read
  subst read
  cases found : own.registeredBranches with
  | error missing =>
      obtain ⟨other, member, none⟩ := Merkle.exists_of_mapM_eq_error found
      obtain ⟨_, rfl⟩ := complete.of_branch_eq_error member
        (fun inside => ⟨inside, registered ▸ member⟩) none
      rw [checkBranches, found]
      intro same
      cases same
  | ok branches =>
      rw [checkBranches_eq_ok complete found]
      intro same
      cases same

end VerificationProof

open DatasetReader in
/-- With a word for every lookup in the content of the dataset file, there is a proof: it shows the audited
share, and the integers of one word for every lookup. -/
theorem Proving.exists_finish_eq_ok {claim : Claim} {index : Nat} {audited : AuditedShare}
    {indices : List Nat} {content : List UInt8} {count : Nat}
    (selected : AuditedShare.select claim index = .ok audited)
    (counted : WordCount content.length count) (nonempty : 0 < count)
    (inside : ∀ position ∈ indices, position < count) :
    ∃ proof, finish audited indices (.ok content) = .ok proof ∧
      proof.encodedHeader = audited.share.header.encode ∧ proof.nonce = audited.share.nonce.toNat ∧
      proof.shareIndex = index ∧ ∃ looked : List Word,
        List.Forall₂ (fun position word => slice 128 position (content.drop magicLength) = word.toList)
          indices looked ∧
        proof.datasetElements = looked.flatMap Word.integers := by
  obtain ⟨magic, words, dataset, rfl, rfl, built, rfl, complete⟩ :=
    DatasetTree.exists_ofContent_of_wordCount counted nonempty indices
  obtain ⟨proof, assembled, looked, found, elements⟩ :=
    VerificationProof.exists_assemble_eq_ok selected complete fun position member =>
      ⟨inside position member, inside position member, member⟩
  obtain ⟨header, nonce, shareIndex, _, _⟩ := VerificationProof.of_assemble_eq_ok assembled
  obtain ⟨_, position, _⟩ := AuditedShare.of_select_eq_ok selected
  refine ⟨proof, ?_, header, nonce, shareIndex.trans position, looked, ?_, elements⟩
  · rw [finish, built]
    exact assembled
  · refine found.imp fun place word here => ?_
    rw [drop_magic, Word.concat]
    exact slice_flatMap (fun word _ => word.length_toList) here

namespace AuditedShare

variable {claim : Claim} {index : Nat}

theorem select_of_size_le (outside : claim.size ≤ index) :
    select claim index = .error (.state (.auditOutside index claim.size)) := by
  have sorted : claim.sorted.size ≤ index := by rwa [claim.size_sorted]
  have nothing : claim.sorted.shares[index]? = none := List.getElem?_eq_none sorted
  simp only [select, nothing, claim.size_sorted]

/-- A share that is found can be audited. -/
theorem exists_select_of_getElem? {share : Share} (few : claim.size ≤ 2 ^ (32 : Nat))
    (found : claim.sorted.shares[index]? = some share) :
    ∃ audited, select claim index = .ok audited ∧ audited.share = share ∧ audited.position = index := by
  have inside : index < claim.sorted.size := (List.getElem?_eq_some_iff.1 found).1
  obtain ⟨audited, selected⟩ := exists_select_eq_ok (claim.size_sorted ▸ inside) few
  obtain ⟨own, position, _⟩ := of_select_eq_ok selected
  rw [found, Option.some.injEq] at own
  exact ⟨audited, selected, own.symm, position⟩

/-- In the tree of a claim, a branch that leads elsewhere is never found. -/
theorem select_ne_claimBranch (few : claim.size ≤ 2 ^ (32 : Nat)) (index position : Nat) :
    select claim index ≠ .error (.tree (.claimBranch position)) := by
  by_cases inside : index < claim.size
  · obtain ⟨audited, selected⟩ := exists_select_eq_ok inside few
    rw [selected]
    intro same
    cases same
  · rw [select_of_size_le (Nat.le_of_not_lt inside)]
    intro same
    cases same

end AuditedShare

/-! ### What is asked -/

/-- What a proof is gathered for, and from. -/
structure Request (ω : Type) where
  datasets : DatasetLocator
  environment : Environment pool ω
  memory : ω
  claim : Claim
  index : Nat

namespace Request

open DatasetReader

variable {ω : Type} {request : Request ω} {share : Share} {indices : List Nat} {content : List UInt8}
  {error : Error}

/-- What gathering comes to. -/
def gathered (request : Request ω) : Option (Except Error VerificationProof) :=
  Proving.gather request.datasets request.environment request.memory request.claim request.index

/-- The claim has the share, and the positions of its words are named. -/
structure Names (request : Request ω) (share : Share) (indices : List Nat) (later : ω) : Prop where
  found : request.claim.sorted.shares[request.index]? = some share
  named : request.environment.ask (PoolQuery.verificationIndices share) request.memory =
    (.ok indices, later)

/-- Besides, the seed of the epoch is known, and with it the path of the dataset. -/
inductive Locates (request : Request ω) (share : Share) (indices : List Nat) : String → ω → Prop where
  | of_seed {earlier later : ω} {seed : Hash256} (names : request.Names share indices earlier)
      (known : request.environment.ask (PoolQuery.seedHash share.header.number.toNat) earlier =
        (.ok seed, later)) : Locates request share indices (request.datasets.pathFor seed) later

/-- Besides, the file at the path has been read. -/
inductive Reads (request : Request ω) (share : Share) (indices : List Nat) (content : List UInt8) :
    Prop where
  | of_path {path : String} {earlier later : ω} (locates : request.Locates share indices path earlier)
      (read : request.environment.ask (PoolQuery.fileContent path) earlier = (.ok content, later)) :
      Reads request share indices content

theorem Locates.exists_select {path : String} {later : ω}
    (locates : request.Locates share indices path later)
    (few : request.claim.size ≤ 2 ^ (32 : Nat)) :
    ∃ audited, AuditedShare.select request.claim request.index = .ok audited ∧
      audited.share = share := by
  cases locates with
  | of_seed names known =>
      obtain ⟨audited, selected, same, _⟩ := AuditedShare.exists_select_of_getElem? few names.found
      exact ⟨audited, selected, same⟩

theorem Reads.exists_select (reads : request.Reads share indices content)
    (few : request.claim.size ≤ 2 ^ (32 : Nat)) :
    ∃ audited, AuditedShare.select request.claim request.index = .ok audited ∧
      audited.share = share := by
  cases reads with
  | of_path locates read => exact locates.exists_select few

/-- Nothing is missing that a proof needs. -/
def Provable (request : Request ω) : Prop :=
  ∃ share indices content count, request.Reads share indices content ∧
    WordCount content.length count ∧ 0 < count ∧ ∀ position ∈ indices, position < count

/-- What is missing, and the error that tells it. Each form takes for granted what is looked at before. -/
inductive Refusal (request : Request ω) : Error → Prop where
  | share (outside : request.claim.size ≤ request.index) :
      Refusal request (.state (.auditOutside request.index request.claim.size))
  | indices {share : Share} {error : Error} {later : ω}
      (found : request.claim.sorted.shares[request.index]? = some share)
      (refused : request.environment.ask (PoolQuery.verificationIndices share) request.memory =
        (.error error, later)) : Refusal request error
  | seed {share : Share} {indices : List Nat} {error : Error} {earlier later : ω}
      (names : request.Names share indices earlier)
      (refused : request.environment.ask (PoolQuery.seedHash share.header.number.toNat) earlier =
        (.error error, later)) : Refusal request error
  | file {share : Share} {indices : List Nat} {path : String} {fault : FileFault} {earlier later : ω}
      (locates : request.Locates share indices path earlier)
      (refused : request.environment.ask (PoolQuery.fileContent path) earlier =
        (.error (.file fault), later)) : Refusal request (.file fault)
  | length {share : Share} {indices : List Nat} {content : List UInt8} {fault : DatasetFault}
      (reads : request.Reads share indices content) (bad : BadLength content.length fault) :
      Refusal request (.dataset fault)
  | noWords {share : Share} {indices : List Nat} {content : List UInt8}
      (reads : request.Reads share indices content) (empty : WordCount content.length 0) :
      Refusal request (.tree .noLeaves)
  | noWord {share : Share} {before after : List Nat} {position count : Nat} {content : List UInt8}
      (reads : request.Reads share (before ++ position :: after) content)
      (counted : WordCount content.length count) (nonempty : 0 < count)
      (inside : ∀ earlier ∈ before, earlier < count) (outside : count ≤ position) :
      Refusal request (.tree (.noBranch position count))

/-- What a proof shows: the share, and the integers of one word for every lookup, repeats included. -/
structure Shown (request : Request ω) (share : Share) (indices : List Nat) (content : List UInt8)
    (proof : VerificationProof) : Prop where
  header : proof.encodedHeader = share.header.encode
  nonce : proof.nonce = share.nonce.toNat
  shareIndex : proof.shareIndex = request.index
  words : ∃ looked : List Word,
    List.Forall₂ (fun position word => slice 128 position (content.drop magicLength) = word.toList)
      indices looked ∧
    proof.datasetElements = looked.flatMap Word.integers

/-- If a file is not read, then because of a fault of the file. -/
def FilesFault (environment : Environment pool ω) : Prop :=
  ∀ path memory error later,
    environment.ask (PoolQuery.fileContent path) memory = (.error error, later) →
      ∃ fault, error = .file fault

/-! ### One answer after another -/

section

variable {audited : AuditedShare}

theorem gathered_of_select_error
    (refused : AuditedShare.select request.claim request.index = .error error) :
    request.gathered = some (.error error) := by
  rw [gathered, Proving.gather, Proving.start, refused]
  rfl

theorem gathered_of_indices_error {later : ω}
    (selected : AuditedShare.select request.claim request.index = .ok audited)
    (refused : request.environment.ask (PoolQuery.verificationIndices audited.share) request.memory =
      (.error error, later)) : request.gathered = some (.error error) := by
  rw [gathered, Proving.gather, Proving.start, selected]
  simp only [Except.map, Activity.run, Activity.step, Proving.activity, Proving.await,
    Environment.reply?, refused, Proving.resume, Proving.located, Option.map_some]

theorem gathered_of_seed_error {earlier later : ω}
    (selected : AuditedShare.select request.claim request.index = .ok audited)
    (names : request.Names audited.share indices earlier)
    (refused : request.environment.ask (PoolQuery.seedHash audited.share.header.number.toNat) earlier =
      (.error error, later)) : request.gathered = some (.error error) := by
  rw [gathered, Proving.gather, Proving.start, selected]
  simp only [Except.map, Activity.run, Activity.step, Proving.activity, Proving.await,
    Environment.reply?, names.named, refused, Proving.resume, Proving.located, Proving.seeded,
    Option.map_some]

/-- With a path, gathering comes to what is made of the file. -/
theorem gathered_of_locates {path : String} {earlier later : ω} {file : Except Error (List UInt8)}
    (selected : AuditedShare.select request.claim request.index = .ok audited)
    (locates : request.Locates audited.share indices path earlier)
    (answered : request.environment.ask (PoolQuery.fileContent path) earlier = (file, later)) :
    request.gathered = some (Proving.finish audited indices file) := by
  cases locates with
  | of_seed names known =>
      rw [gathered, Proving.gather, Proving.start, selected]
      simp only [Except.map, Activity.run, Activity.step, Proving.activity, Proving.await,
        Environment.reply?, names.named, known, answered, Proving.resume, Proving.located,
        Proving.seeded, Option.map_some]

/-- With the content of the file, gathering comes to what is made of it. -/
theorem gathered_of_reads (selected : AuditedShare.select request.claim request.index = .ok audited)
    (reads : request.Reads audited.share indices content) :
    request.gathered = some (Proving.finish audited indices (.ok content)) := by
  cases reads with
  | of_path locates read => exact gathered_of_locates selected locates read

end

/-! ### From the content of the file to a proof -/

variable {audited : AuditedShare}

theorem finish_of_badLength {fault : DatasetFault} (bad : BadLength content.length fault) :
    Proving.finish audited indices (.ok content) = .error (.dataset fault) := by
  rw [Proving.finish, DatasetTree.ofContent_of_badLength bad]
  rfl

theorem finish_of_noWords (empty : WordCount content.length 0) :
    Proving.finish audited indices (.ok content) = .error (.tree .noLeaves) := by
  rw [Proving.finish, (DatasetTree.ofContent_of_no_words empty).1]
  rfl

theorem finish_of_noWord {before after : List Nat} {position count : Nat}
    (counted : WordCount content.length count) (nonempty : 0 < count)
    (inside : ∀ earlier ∈ before, earlier < count) (outside : count ≤ position) :
    Proving.finish audited (before ++ position :: after) (.ok content) =
      .error (.tree (.noBranch position count)) := by
  obtain ⟨_, words, dataset, rfl, _, built, registered, complete⟩ :=
    DatasetTree.exists_ofContent_of_wordCount counted nonempty (before ++ position :: after)
  rw [Proving.finish, built]
  apply VerificationProof.assemble_eq_error complete registered _ outside
  intro earlier member
  exact ⟨inside earlier member, inside earlier member, List.mem_append_left _ member⟩

/-- With a word for every lookup, the proof shows the share and the words. -/
theorem exists_finish_eq_ok {count : Nat}
    (selected : AuditedShare.select request.claim request.index = .ok audited)
    (counted : WordCount content.length count) (nonempty : 0 < count)
    (inside : ∀ position ∈ indices, position < count) :
    ∃ proof, Proving.finish audited indices (.ok content) = .ok proof ∧
      request.Shown audited.share indices content proof := by
  obtain ⟨proof, finished, header, nonce, shareIndex, words⟩ :=
    Proving.exists_finish_eq_ok selected counted nonempty inside
  exact ⟨proof, finished, header, nonce, shareIndex, words⟩

/-! ### The whole request -/

/-- Either nothing is missing, or it can be said what is. -/
theorem provable_or_refusal (files : FilesFault request.environment) :
    request.Provable ∨ ∃ error, request.Refusal error := by
  by_cases outside : request.claim.size ≤ request.index
  · exact .inr ⟨_, .share outside⟩
  have inside : request.index < request.claim.sorted.size := by
    rw [request.claim.size_sorted]
    exact Nat.lt_of_not_le outside
  have found := List.getElem?_eq_getElem inside
  generalize request.claim.sorted.shares[request.index] = share at found
  rcases named : request.environment.ask (PoolQuery.verificationIndices share) request.memory with
    ⟨error | indices, first⟩
  · exact .inr ⟨error, .indices found named⟩
  rcases known : request.environment.ask (PoolQuery.seedHash share.header.number.toNat) first with
    ⟨error | seed, second⟩
  · exact .inr ⟨error, .seed ⟨found, named⟩ known⟩
  rcases read : request.environment.ask
      (PoolQuery.fileContent (request.datasets.pathFor seed)) second with ⟨error | content, third⟩
  · obtain ⟨fault, rfl⟩ := files _ _ _ _ read
    exact .inr ⟨_, .file (.of_seed ⟨found, named⟩ known) read⟩
  have reads : request.Reads share indices content := ⟨.of_seed ⟨found, named⟩ known, read⟩
  rcases wordCount_or_badLength content.length with ⟨count, counted⟩ | ⟨fault, bad⟩
  · cases count with
    | zero => exact .inr ⟨_, .noWords reads counted⟩
    | succ count =>
        cases missing : indices.find? (count + 1 ≤ ·) with
        | none =>
            refine .inl ⟨share, indices, content, count + 1, reads, counted, Nat.succ_pos _, ?_⟩
            intro position member
            simpa using List.find?_eq_none.1 missing position member
        | some position =>
            obtain ⟨beyond, before, after, rfl, earlier⟩ := List.find?_eq_some_iff_append.1 missing
            refine .inr ⟨_, .noWord reads counted (Nat.succ_pos _) ?_ (of_decide_eq_true beyond)⟩
            intro position member
            simpa using earlier position member
  · exact .inr ⟨_, .length reads bad⟩

section

variable (few : request.claim.size < 2 ^ (32 : Nat))

include few

theorem gathered_of_refusal (refusal : request.Refusal error) :
    request.gathered = some (.error error) := by
  have small := Nat.le_of_lt few
  cases refusal with
  | share outside => exact gathered_of_select_error (AuditedShare.select_of_size_le outside)
  | indices found refused =>
      obtain ⟨audited, selected, rfl, _⟩ := AuditedShare.exists_select_of_getElem? small found
      exact gathered_of_indices_error selected refused
  | seed names refused =>
      obtain ⟨audited, selected, rfl, _⟩ := AuditedShare.exists_select_of_getElem? small names.found
      exact gathered_of_seed_error selected names refused
  | file locates refused =>
      obtain ⟨audited, selected, rfl⟩ := locates.exists_select small
      exact gathered_of_locates selected locates refused
  | length reads bad =>
      obtain ⟨audited, selected, rfl⟩ := reads.exists_select small
      rw [gathered_of_reads selected reads, finish_of_badLength bad]
  | noWords reads empty =>
      obtain ⟨audited, selected, rfl⟩ := reads.exists_select small
      rw [gathered_of_reads selected reads, finish_of_noWords empty]
  | noWord reads counted nonempty inside outside =>
      obtain ⟨audited, selected, rfl⟩ := reads.exists_select small
      rw [gathered_of_reads selected reads, finish_of_noWord counted nonempty inside outside]

theorem exists_gathered_of_provable (provable : request.Provable) :
    ∃ proof, request.gathered = some (.ok proof) ∧
      ∃ share indices content, request.Reads share indices content ∧
        request.Shown share indices content proof := by
  obtain ⟨share, indices, content, count, reads, counted, nonempty, inside⟩ := provable
  obtain ⟨audited, selected, rfl⟩ := reads.exists_select (Nat.le_of_lt few)
  obtain ⟨proof, finished, shown⟩ := exists_finish_eq_ok selected counted nonempty inside
  refine ⟨proof, ?_, audited.share, indices, content, reads, shown⟩
  rw [gathered_of_reads selected reads, finished]

variable (files : FilesFault request.environment)

include files

theorem gathered_eq_error_iff :
    request.gathered = some (.error error) ↔ request.Refusal error := by
  constructor
  · intro refused
    rcases provable_or_refusal files with provable | ⟨other, refusal⟩
    · obtain ⟨proof, produced, _⟩ := exists_gathered_of_provable few provable
      rw [produced] at refused
      cases refused
    · rw [gathered_of_refusal few refusal] at refused
      cases refused
      exact refusal
  · exact gathered_of_refusal few

theorem exists_gathered_iff :
    (∃ proof, request.gathered = some (.ok proof)) ↔ request.Provable := by
  constructor
  · rintro ⟨proof, produced⟩
    rcases provable_or_refusal files with provable | ⟨error, refusal⟩
    · exact provable
    · rw [gathered_of_refusal few refusal] at produced
      cases produced
  · intro provable
    obtain ⟨proof, produced, _⟩ := exists_gathered_of_provable few provable
    exact ⟨proof, produced⟩

end

/-- A proof is complete or not produced: it is produced exactly if nothing is missing that it needs, what is
missing first is told, and the checks of the branches never find anything. -/
theorem gathered_exact (request : Request ω) (few : request.claim.size < 2 ^ (32 : Nat))
    (files : FilesFault request.environment) :
    ∃ result, request.gathered = some result ∧
      ((∃ proof, result = .ok proof) ↔ request.Provable) ∧
      (∀ error, result = .error error ↔ request.Refusal error) ∧
      (∀ proof, result = .ok proof → ∃ share indices content,
        request.Reads share indices content ∧ request.Shown share indices content proof) ∧
      (∀ position, AuditedShare.select request.claim request.index ≠
        .error (.tree (.claimBranch position))) ∧
      ∀ indices content dataset, DatasetTree.ofContent indices content = .ok dataset →
        ∀ position, VerificationProof.checkBranches dataset ≠
          .error (.tree (.datasetBranch position)) := by
  obtain ⟨result, gathers⟩ : ∃ result, request.gathered = some result :=
    Option.isSome_iff_exists.1 (Proving.gather_isSome request.claim request.index)
  refine ⟨result, gathers, ?_, ?_, ?_, ?_, ?_⟩
  · rw [← exists_gathered_iff few files, gathers]
    simp only [Option.some.injEq]
  · intro error
    rw [← gathered_eq_error_iff few files, gathers, Option.some.injEq]
  · rintro proof rfl
    have provable := (exists_gathered_iff few files).1 ⟨proof, gathers⟩
    obtain ⟨other, produced, shows⟩ := exists_gathered_of_provable few provable
    rw [gathers] at produced
    cases produced
    exact shows
  · exact AuditedShare.select_ne_claimBranch (Nat.le_of_lt few) request.index
  · intro indices content dataset read
    exact VerificationProof.checkBranches_ne_datasetBranch read

/-- Whatever share is asked about, the same positions are named, and every file has the same content. -/
def answering (indices : List Nat) (content : List UInt8) : Environment pool Unit where
  now _ := 0
  ask query memory :=
    (match query with
      | .verificationIndices _ => .ok indices
      | .seedHash _ => .ok (.replicate 32 0x42)
      | .fileContent _ => .ok content
      | _ => .error (.reported .node ""), memory)
  draw memory := (.zero, memory)
  pause _ memory := memory
  tick _ memory := (.due, memory)

/-- The request for the later one of two shares, with these answers. -/
def ofAnswers (indices : List Nat) (content : List UInt8) : Request Unit where
  datasets := ⟨"", DatasetLocator.defaultRevision⟩
  environment := answering indices content
  memory := ()
  claim := ⟨[.unclassified Claim.zeroHeader 1 9 (.zero 32), .unclassified Claim.zeroHeader 1 4 (.zero 32)]⟩
  index := 1

theorem filesFault_answering (indices : List Nat) (content : List UInt8) :
    FilesFault (answering indices content) := by
  intro path memory error later refused
  cases refused

theorem exists_reads_ofAnswers (indices : List Nat) (content : List UInt8) :
    ∃ share, (ofAnswers indices content).Reads share indices content := by
  have inside : 1 < (ofAnswers indices content).claim.sorted.size := by
    rw [Claim.size_sorted]
    exact Nat.one_lt_two
  exact ⟨_, .of_path (.of_seed ⟨List.getElem?_eq_getElem inside, rfl⟩ rfl) rfl⟩

/-- Two words, the last of which is looked up twice. -/
def repeated : Request Unit := ofAnswers [1, 0, 1] (List.replicate 264 7)

theorem gathered_exact_repeated :
    repeated.claim.size < 2 ^ (32 : Nat) ∧ FilesFault repeated.environment ∧
      ∃ proof, repeated.gathered = some (.ok proof) ∧ ∃ share indices content,
        repeated.Reads share indices content ∧ repeated.Shown share indices content proof := by
  have few : repeated.claim.size < 2 ^ (32 : Nat) := show 2 < 2 ^ (32 : Nat) by decide
  have files : FilesFault repeated.environment := filesFault_answering _ _
  have provable : repeated.Provable := by
    obtain ⟨share, reads⟩ := exists_reads_ofAnswers [1, 0, 1] (List.replicate 264 7)
    have counted : WordCount (List.replicate 264 (7 : UInt8)).length 2 := by
      rw [List.length_replicate]
      exact ⟨rfl, by decide⟩
    exact ⟨share, _, _, 2, reads, counted, by decide, by decide⟩
  obtain ⟨result, produced, complete, _, shows, _⟩ := gathered_exact repeated few files
  obtain ⟨proof, rfl⟩ := complete.2 provable
  exact ⟨few, files, proof, produced, shows proof rfl⟩

/-- A file with a magic number and no words is not malformed: what is refused is the empty tree. -/
theorem gathered_wordless :
    ¬∀ (request : Request Unit) (share : Share) (indices : List Nat) (content : List UInt8),
      request.claim.size < 2 ^ (32 : Nat) → FilesFault request.environment →
      request.Reads share indices content →
      (¬∃ count, content.length = magicLength + 128 * count ∧ 1 ≤ count ∧ count < wordLimit) →
      ∃ fault, request.gathered = some (.error (.dataset fault)) := by
  intro malformed
  obtain ⟨share, reads⟩ := exists_reads_ofAnswers [] (List.replicate 8 0xfe)
  have few : (ofAnswers [] (List.replicate 8 0xfe)).claim.size < 2 ^ (32 : Nat) :=
    show 2 < 2 ^ (32 : Nat) by decide
  have empty : WordCount (List.replicate 8 (0xfe : UInt8)).length 0 := ⟨rfl, by decide⟩
  have wordless : ¬∃ count, (List.replicate 8 (0xfe : UInt8)).length = magicLength + 128 * count ∧
      1 ≤ count ∧ count < wordLimit := by
    rintro ⟨count, length, positive, _⟩
    rw [empty.length] at length
    omega
  obtain ⟨fault, refused⟩ :=
    malformed _ share [] _ few (filesFault_answering _ _) reads wordless
  rw [gathered_of_refusal few (.noWords reads empty)] at refused
  cases refused

end Request

end MiningPool
