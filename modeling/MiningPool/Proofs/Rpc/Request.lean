/-
Module: MiningPool.Proofs.Rpc.Request
Purpose: which requests ask for something that can be done, and what an omitted identifier stands for.
Main exports: Rpc.Request.Served, Rpc.Request.Misgiven, Rpc.Message.id_eq_null
-/
import MiningPool.Proofs.Json.Record
import MiningPool.Rpc.Exchange

/-!
A request asks for nothing that can be done for one of two reasons only, its method or its parameters. A
field that is given is listed while the record is read, so an identifier that is not listed was not given.
-/

namespace MiningPool

namespace Rpc

/-! ### The identifier -/

/-- An identifier that has been read was given. -/
theorem Request.form_keeps :
    form.Keeps fun values present => values.id.isSome = true → "id" ∈ present := by
  intro name values bytes after rest read present holds some
  by_cases isId : name = "id"
  · rw [isId]
    exact List.mem_cons_self
  · refine List.mem_cons_of_mem _ (holds ?_)
    simp only [form, if_neg isId] at read
    split at read
    · obtain ⟨⟨text, behind⟩, _, read⟩ := bind_eq_ok.1 read
      cases read
      exact some
    · obtain ⟨⟨value, behind⟩, _, read⟩ := bind_eq_ok.1 read
      cases read
      exact some

/-- The body of a message is a record with the field. -/
def Message.Gives (message : Message) (name : String) : Prop :=
  ∃ parts rest, Request.form.read? ⟨none, none, none⟩ message.body = .ok (parts, rest) ∧
    name ∈ parts.present

theorem Message.parse_of_request {message : Message} {request : Request}
    (held : message.request = .ok request) : Request.parse message.body = .ok request := by
  rw [Message.request] at held
  split at held
  · cases held
  · split at held
    · cases held
    · split at held
      · rename_i parsed
        cases held
        exact parsed
      · cases held
      · cases held

/-- Without an identifier a request is answered as if null were its identifier. -/
theorem Message.id_eq_null {message : Message} {request : Request}
    (held : message.request = .ok request) (omitted : ¬message.Gives "id") : request.id = .null := by
  obtain ⟨⟨parts, rest⟩, read, finished⟩ := bind_eq_ok.1 (parse_of_request held)
  have given := Json.RecordForm.read?_keeps Request.form_keeps read (by rintro ⟨⟩)
  have none : parts.values.id = none := by
    rw [← Option.not_isSome_iff_eq_none]
    exact fun some => omitted ⟨_, _, read, given some⟩
  simp only [Request.finish, none, Option.getD_none] at finished
  cases method : parts.values.method with
  | none =>
      rw [method] at finished
      cases finished
  | some name =>
      simp only [method, Option.map_some] at finished
      split at finished
      · cases finished
        rfl
      · cases finished

/-! ### Methods and parameters -/

/-- The three methods. -/
def Request.Served (request : Request) : Prop :=
  request.method ∈ ["eth_getWork", "eth_submitWork", "eth_submitHashrate"]

/-- A nonce and two hashes. -/
inductive SolutionParams : Json → Prop where
  | intro {nonce powHash mixDigest : String} {nonceValue : BlockNonce}
      {powHashValue mixDigestValue : Hash256} (isNonce : BlockNonce.parse nonce = .ok nonceValue)
      (isPowHash : FixedBytes.parse 32 powHash = .ok powHashValue)
      (isMixDigest : FixedBytes.parse 32 mixDigest = .ok mixDigestValue) :
      SolutionParams (.array [.string nonce, .string powHash, .string mixDigest])

/-- A quantity and a hash. -/
inductive HashrateParams : Json → Prop where
  | intro {rate id : String} {rateValue : Nat} {idValue : Hash256}
      (isRate : parseQuantity rate = .ok rateValue) (isId : FixedBytes.parse 32 id = .ok idValue) :
      HashrateParams (.array [.string rate, .string id])

/-- The method takes parameters, and these are not of its kind. -/
inductive Request.Misgiven : Request → Prop where
  | solution {request : Request} (method : request.method = "eth_submitWork")
      (wrong : ¬SolutionParams request.params) : Misgiven request
  | hashrate {request : Request} (method : request.method = "eth_submitHashrate")
      (wrong : ¬HashrateParams request.params) : Misgiven request

theorem strings?_eq_some {items : List Json} {texts : List String} :
    strings? items = some texts ↔ items = texts.map .string := by
  induction items generalizing texts with
  | nil => cases texts <;> simp [strings?]
  | cons item items ih =>
      cases item with
      | string text =>
          rw [strings?, Option.map_eq_some_iff]
          constructor
          · rintro ⟨rest, isRest, rfl⟩
            rw [ih.1 isRest, List.map_cons]
          · intro same
            cases texts with
            | nil => cases same
            | cons first rest =>
                obtain ⟨⟨⟩, isRest⟩ := List.cons.inj same
                exact ⟨rest, ih.2 isRest, rfl⟩
      | _ => cases texts <;> simp [strings?]

/-- Parameters of the right number that are all strings. -/
theorem stringParams_eq_ok {count : Nat} {params : Json} {texts : List String} :
    stringParams count params = .ok texts ↔
      params = .array (texts.map .string) ∧ texts.length = count := by
  cases params with
  | array items =>
      rw [stringParams, Json.array.injEq, ← strings?_eq_some]
      by_cases length : items.length = count
      · rw [if_neg (not_not_intro length)]
        cases strings : strings? items with
        | none => simp
        | some others =>
            have same := strings?_eq_some.1 strings
            simp only [Except.ok.injEq, Option.some.injEq]
            refine ⟨fun equal => ⟨equal, ?_⟩, fun both => both.1⟩
            rw [← equal, ← length, same, List.length_map]
      · rw [if_pos length]
        refine iff_of_false (by rintro ⟨⟩) ?_
        rintro ⟨strings, texted⟩
        rw [strings?_eq_some.1 strings, List.length_map] at length
        exact length texted
  | _ => simp [stringParams]

theorem parseNonce_eq_ok {text : String} {nonce : BlockNonce} :
    parseNonce text = .ok nonce ↔ BlockNonce.parse text = .ok nonce := by
  rw [parseNonce]
  split <;> simp [*]

theorem parseHash_eq_ok {text : String} {hash : Hash256} :
    parseHash text = .ok hash ↔ FixedBytes.parse 32 text = .ok hash := by
  rw [parseHash]
  split <;> simp [*]

theorem exists_solution_iff {params : Json} :
    (∃ call, solution params = .ok call) ↔ SolutionParams params := by
  constructor
  · rintro ⟨call, given⟩
    obtain ⟨texts, strings, read⟩ := bind_eq_ok.1 given
    obtain ⟨rfl, _⟩ := stringParams_eq_ok.1 strings
    split at read
    · obtain ⟨_, isNonce, read⟩ := bind_eq_ok.1 read
      obtain ⟨_, isPowHash, read⟩ := bind_eq_ok.1 read
      obtain ⟨_, isMixDigest, _⟩ := bind_eq_ok.1 read
      exact .intro (parseNonce_eq_ok.1 isNonce) (parseHash_eq_ok.1 isPowHash)
        (parseHash_eq_ok.1 isMixDigest)
    · cases read
  · rintro @⟨nonce, powHash, mixDigest, nonceValue, powHashValue, mixDigestValue, isNonce, isPowHash,
      isMixDigest⟩
    have strings : stringParams 3 (.array [.string nonce, .string powHash, .string mixDigest]) =
        .ok [nonce, powHash, mixDigest] := stringParams_eq_ok.2 ⟨rfl, rfl⟩
    refine ⟨.submitWork nonceValue powHashValue mixDigestValue, ?_⟩
    rw [← parseNonce_eq_ok] at isNonce
    rw [← parseHash_eq_ok] at isPowHash isMixDigest
    simp only [solution, bind, Except.bind, strings, isNonce, isPowHash, isMixDigest]

theorem exists_hashrate_iff {params : Json} :
    (∃ call, hashrate params = .ok call) ↔ HashrateParams params := by
  constructor
  · rintro ⟨call, given⟩
    obtain ⟨texts, strings, read⟩ := bind_eq_ok.1 given
    obtain ⟨rfl, _⟩ := stringParams_eq_ok.1 strings
    split at read
    · obtain ⟨_, isRate, read⟩ := bind_eq_ok.1 read
      obtain ⟨_, isId, _⟩ := bind_eq_ok.1 read
      exact .intro isRate (parseHash_eq_ok.1 isId)
    · cases read
  · rintro @⟨rate, id, rateValue, idValue, isRate, isId⟩
    have strings : stringParams 2 (.array [.string rate, .string id]) = .ok [rate, id] :=
      stringParams_eq_ok.2 ⟨rfl, rfl⟩
    refine ⟨.submitHashrate rateValue idValue, ?_⟩
    rw [← parseHash_eq_ok] at isId
    simp only [hashrate, bind, Except.bind, strings, isRate, isId]

section

variable {request : Request}

theorem mapError_ne_unknownMethod (params : Except ParamFault Service.Call) :
    params.mapError CallFault.params ≠ .error .unknownMethod := by
  cases params <;> rintro ⟨⟩

/-- Parameters are at fault when they cannot be read. -/
theorem exists_mapError_iff (params : Except ParamFault Service.Call) :
    (∃ fault, params.mapError CallFault.params = .error (.params fault)) ↔
      ¬∃ call, params = .ok call := by
  cases params with
  | error fault => exact iff_of_true ⟨fault, rfl⟩ (by rintro ⟨call, ⟨⟩⟩)
  | ok call => exact iff_of_false (by rintro ⟨fault, ⟨⟩⟩) fun none => none ⟨call, rfl⟩

theorem Request.call_eq_unknownMethod : request.call = .error .unknownMethod ↔ ¬request.Served := by
  simp only [call, Served, List.mem_cons, List.not_mem_nil, or_false, not_or]
  split
  · rename_i method
    simp [method]
  split
  · rename_i method
    simp [method, mapError_ne_unknownMethod]
  split
  · rename_i method
    simp [method, mapError_ne_unknownMethod]
  · rename_i work submit report
    exact iff_of_true rfl ⟨work, submit, report⟩

theorem Request.exists_call_eq_params :
    (∃ fault, request.call = .error (.params fault)) ↔ request.Misgiven := by
  simp only [call]
  split
  · rename_i method
    refine iff_of_false (by rintro ⟨fault, ⟨⟩⟩) ?_
    rintro (⟨other⟩ | ⟨other⟩)
    · exact absurd (method.symm.trans other) (by decide)
    · exact absurd (method.symm.trans other) (by decide)
  split
  · rename_i method
    rw [exists_mapError_iff, exists_solution_iff]
    refine ⟨fun wrong => .solution method wrong, ?_⟩
    rintro (⟨_, wrong⟩ | ⟨other⟩)
    · exact wrong
    · exact absurd (method.symm.trans other) (by decide)
  split
  · rename_i method
    rw [exists_mapError_iff, exists_hashrate_iff]
    refine ⟨fun wrong => .hashrate method wrong, ?_⟩
    rintro (⟨other⟩ | ⟨_, wrong⟩)
    · exact absurd (method.symm.trans other) (by decide)
    · exact wrong
  · rename_i submit report
    refine iff_of_false (by rintro ⟨fault, ⟨⟩⟩) ?_
    rintro (⟨method⟩ | ⟨method⟩)
    · exact submit method
    · exact report method

end

end Rpc

end MiningPool
