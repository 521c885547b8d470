/-
Module: MiningPool.Proofs.Rpc.Replies
Purpose: every message gets the answer that it calls for, and a message that asks for nothing changes nothing.
Main exports: Rpc.Sends, Rpc.Message.Posted, Rpc.Server.classified_of_run
-/
import MiningPool.Proofs.Rpc.Request
import MiningPool.Proofs.Rpc.Server

/-!
What an answer says is read off its body: the identifier, and either a result or an error with its code. The
code tells whether the message held a request, whether the request named a method that is served, whether
its parameters could be read, and whether the service has done what was asked.
-/

namespace MiningPool.Rpc

/-! ### The bodies of answers -/

def ErrorCode.toJson (code : ErrorCode) : Json := .number (.negative code.number.natAbs)

/-- The bodies with an identifier and either a result or, with its code, an error. -/
inductive Sends (id : Json) : Option ErrorCode → String → Prop where
  | result (value : Json) :
      Sends id none (Json.object [("jsonrpc", .string "2.0"), ("id", id), ("result", value)]).text
  | failure (code : ErrorCode) (message : String) :
      Sends id (some code) (Json.object [("jsonrpc", .string "2.0"), ("id", id),
        ("error", .object [("code", code.toJson), ("message", .string message)])]).text

theorem ErrorCode.text_toJson (code : ErrorCode) : code.toJson.text = toString code.number := by
  cases code <;> rfl

theorem text_object (id last : Json) (key : String) :
    (Json.object [("jsonrpc", .string "2.0"), ("id", id), (key, last)]).text =
      "\x7b\"jsonrpc\":\"2.0\",\"id\":" ++ id.text ++ "," ++ (Json.stringText key ++ ":" ++ last.text) ++
        "\x7d" := by
  have front : "\x7b" ++ Json.stringText "jsonrpc" ++ ":" ++ Json.stringText "2.0" ++ "," ++
      Json.stringText "id" ++ ":" = "\x7b\"jsonrpc\":\"2.0\",\"id\":" := by decide
  simp only [Json.text, Json.membersText, ← String.append_assoc, front]

theorem sends_result (id value : Json) : Sends id none (Response.text ⟨id, .result value⟩) := by
  have key : Json.stringText "result" ++ ":" = "\"result\":" := by decide
  have sent : Sends id none _ := .result value
  rwa [text_object, key] at sent

theorem sends_failure (id : Json) (code : ErrorCode) (message : String) :
    Sends id (some code) (Response.text ⟨id, .failure code message⟩) := by
  have front : Json.stringText "error" ++ ":" ++ "\x7b" ++ Json.stringText "code" ++ ":" =
      "\"error\":\x7b\"code\":" := by decide
  have middle : "," ++ Json.stringText "message" ++ ":" = ",\"message\":" := by decide
  have error : Json.stringText "error" ++ ":" ++
      (Json.object [("code", code.toJson), ("message", .string message)]).text =
        "\"error\":\x7b\"code\":" ++ toString code.number ++ ",\"message\":" ++
          Json.stringText message ++ "\x7d" := by
    rw [← front, ← middle]
    simp only [Json.text, Json.membersText, code.text_toJson, String.append_assoc]
  have sent : Sends id (some code) _ := .failure code message
  rwa [text_object, error] at sent

/-! ### Messages and their answers -/

/-- The message has been posted to the root of the endpoint. -/
def Message.Posted (message : Message) : Prop :=
  Exchange.path message.target = "/" ∧ message.method = "POST"

namespace Server

variable {settings : LedgerSettings} {shareDifficulty : Nat} {state : PoolState} {now : Instant}
  {message : Message} {request : Rpc.Request} {moves : List (program settings shareDifficulty).Move}

theorem begin_of_rejection (posted : message.Posted) {rejection : Rejection}
    (held : message.request = .error rejection) :
    begin settings state now (.answer message) =
      .inr (.replied (.response (.ofRejection rejection))) := by
  rw [begin, Exchange.begin, if_neg (not_not_intro posted.1), if_neg (not_not_intro posted.2), held]
  rfl

theorem begin_of_request (posted : message.Posted) (held : message.request = .ok request) :
    begin settings state now (.answer message) =
      (Exchange.serve state request).map .answering .replied := by
  rw [begin, Exchange.begin, if_neg (not_not_intro posted.1), if_neg (not_not_intro posted.2), held]

/-- What the code of an answer says about the request, and about what has been done for it. -/
structure Classifies (request : Rpc.Request) (moves : List (program settings shareDifficulty).Move)
    (code? : Option ErrorCode) : Prop where
  held : code? ≠ some .parseError
  unknown : code? = some .methodNotFound ↔ ¬request.Served
  misgiven : code? = some .invalidParams ↔ request.Misgiven
  failed : code? = some .serverError ↔ ∃ error, Fails moves error

/-- A request that asks for no call. -/
theorem classifies_of_fault {fault : CallFault} (asked : request.call = .error fault) :
    ∃ code?, Sends request.id code? (Response.ofCallFault request fault).text ∧
      Classifies request ([] : List (program settings shareDifficulty).Move) code? := by
  have none : ¬∃ error, Fails ([] : List (program settings shareDifficulty).Move) error := by
    rintro ⟨error, failed⟩
    exact not_fails_nil error failed
  cases fault with
  | unknownMethod =>
      refine ⟨_, sends_failure request.id .methodNotFound _, by rintro ⟨⟩,
        iff_of_true rfl (Request.call_eq_unknownMethod.1 asked), iff_of_false (by rintro ⟨⟩) ?_,
        iff_of_false (by rintro ⟨⟩) none⟩
      rw [← Request.exists_call_eq_params, asked]
      rintro ⟨fault, ⟨⟩⟩
  | params fault =>
      refine ⟨_, sends_failure request.id .invalidParams _, by rintro ⟨⟩,
        iff_of_false (by rintro ⟨⟩) ?_,
        iff_of_true rfl (Request.exists_call_eq_params.1 ⟨fault, asked⟩),
        iff_of_false (by rintro ⟨⟩) none⟩
      rw [← Request.call_eq_unknownMethod, asked]
      rintro ⟨⟩

theorem not_faulty_of_call {call : Service.Call} (asked : request.call = .ok call) :
    ¬(¬request.Served ∨ request.Misgiven) := by
  rw [← Request.call_eq_unknownMethod, ← Request.exists_call_eq_params, asked]
  rintro (unserved | ⟨fault, misgiven⟩)
  · cases unserved
  · cases misgiven

/-- A request whose call has come to a result. -/
theorem classifies_of_result {call : Service.Call} {result : Except Error Service.Answer}
    (asked : request.call = .ok call) (fails : ∀ error, Fails moves error ↔ result = .error error)
    (kind : ∀ error, result = .error error → error.kind ≠ .invalidParams) :
    ∃ code?, Sends request.id code? (Response.ofResult request.id result).text ∧
      Classifies request moves code? := by
  obtain ⟨served, given⟩ := not_or.1 (not_faulty_of_call asked)
  cases result with
  | ok answer =>
      refine ⟨_, sends_result request.id _, by rintro ⟨⟩, iff_of_false (by rintro ⟨⟩) served,
        iff_of_false (by rintro ⟨⟩) given, iff_of_false (by rintro ⟨⟩) ?_⟩
      rintro ⟨error, failed⟩
      cases (fails error).1 failed
  | error error =>
      have sent := sends_failure request.id (Response.codeOf error) error.message
      rw [Response.codeOf, if_neg (kind error rfl)] at sent
      refine ⟨_, ?_, by rintro ⟨⟩, iff_of_false (by rintro ⟨⟩) served,
        iff_of_false (by rintro ⟨⟩) given, iff_of_true rfl ⟨error, (fails error).2 rfl⟩⟩
      rwa [Response.ofResult, Response.codeOf, if_neg (kind error rfl)]

open Program in
/-- In any run, whatever else goes on meanwhile, a posted message that holds no request is answered with a
parse error and no identifier. Any other one is answered with the identifier of its request, which is null if
it is omitted, and with either a result or an error, whose code tells exactly what is at fault: the method,
the parameters, or the call of the service. Where no call is asked for, the answer is there when the message
arrives, and nobody has been asked and nothing been changed for it, because the message makes no step. Where
one is asked for, there is an answer as soon as the call of the service has come to a result. -/
theorem classified_of_run (positive : 0 < shareDifficulty)
    {trace : List (program settings shareDifficulty).Event}
    {system : (program settings shareDifficulty).System} (run : Run trace system) {caller : Nat}
    {stage : Phase ⊕ Result} (found : system.calls[caller]? = some ⟨.answer message, stage⟩)
    (posted : message.Posted) (proper : ∀ move ∈ movesOf caller trace, Proper move) :
    (∀ rejection, message.request = .error rejection →
      movesOf caller trace = [] ∧
        ∃ reply, stage = .inr (.replied reply) ∧ Sends .null (some .parseError) reply.body) ∧
    ∀ request, message.request = .ok request →
      (¬message.Gives "id" → request.id = .null) ∧
      (¬request.Served ∨ request.Misgiven →
        movesOf caller trace = [] ∧ ∃ reply, stage = .inr (.replied reply)) ∧
      (∀ phase, stage = .inl phase → ∀ move ∈ movesOf caller trace, served move = none) ∧
      ∀ result, stage = .inr result → ∃ reply code?, result = .replied reply ∧
        Sends request.id code? reply.body ∧ Classifies request (movesOf caller trace) code? := by
  obtain ⟨_, _, before, now, _, _, _, course⟩ := run.exists_course found
  generalize movesOf caller trace = moves at proper course ⊢
  simp only at course
  constructor
  · intro rejection held
    rw [begin_of_rejection posted held] at course
    obtain ⟨none, rfl⟩ := course.of_answered
    exact ⟨none, _, rfl, sends_failure .null .parseError _⟩
  · intro request held
    refine ⟨Message.id_eq_null held, ?_⟩
    rw [begin_of_request posted held] at course
    cases asked : request.call with
    | error fault =>
        rw [Exchange.serve, asked] at course
        obtain ⟨rfl, rfl⟩ := course.of_answered
        refine ⟨fun _ => ⟨rfl, _, rfl⟩, fun phase _ => List.forall_mem_nil _, ?_⟩
        rintro _ ⟨⟩
        obtain ⟨code?, sends, classifies⟩ := classifies_of_fault asked
        exact ⟨_, code?, rfl, sends, classifies⟩
    | ok call =>
        refine ⟨fun faulty => absurd faulty (not_faulty_of_call asked), ?_⟩
        cases stands_of_course (stands_of_serve asked) course with
        | answering same none => exact ⟨fun phase _ => none, by rintro result ⟨⟩⟩
        | @replied outcome fails =>
            have kind : ∀ error, outcome = .error error → error.kind ≠ .invalidParams := by
              intro error failed
              obtain ⟨move, member, last⟩ := (fails error).2 failed
              exact kind_of_served positive (proper move member) last
            refine ⟨by rintro phase ⟨⟩, ?_⟩
            rintro _ ⟨⟩
            obtain ⟨code?, sends, classifies⟩ := classifies_of_result asked fails kind
            exact ⟨_, code?, rfl, sends, classifies⟩

/-- A miner asks for work. -/
def askForWork : Message :=
  ⟨"POST", "/", some "application/json",
    "\x7b\"method\":\"eth_getWork\"\x7d".toList.map fun c => .ofNat c.toNat⟩

open Program in
/-- The node has no work to give. -/
theorem classified_of_failed_run :
    ∃ (trace : List (program Ledger.promptSettings 1).Event)
      (system : (program Ledger.promptSettings 1).System) (reply : Reply),
      Run trace system ∧ askForWork.Posted ∧ (∀ move ∈ movesOf 0 trace, Proper move) ∧
        system.calls[0]? = some ⟨.answer askForWork, .inr (.replied reply)⟩ ∧
        Sends .null (some .serverError) reply.body := by
  let request : Rpc.Request := ⟨.null, "eth_getWork", .null⟩
  let down : Error := .reported .node "connection refused"
  let move : (program Ledger.promptSettings 1).Move :=
    ⟨0, Task.answer askForWork, .answering ⟨.null, .fetching⟩, .fresh, 0, .error down⟩
  let trace : List (program Ledger.promptSettings 1).Event :=
    [.arrived (Task.answer askForWork), .moved move]
  let replied : Reply := .response (.ofResult .null (.error down))
  have held : askForWork.request = .ok request := by rfl
  have posted : askForWork.Posted := ⟨by decide, rfl⟩
  have begun : begin Ledger.promptSettings .fresh 0 (.answer askForWork) =
      .inl (.answering ⟨.null, .fetching⟩) := by
    rw [begin_of_request posted held]
    rfl
  have fetching : Run [.arrived (Task.answer askForWork)]
      (⟨.fresh, [] ++ [⟨.answer askForWork, .inl (.answering ⟨.null, .fetching⟩)⟩], false⟩ :
        (program Ledger.promptSettings 1).System) := by
    rw [← begun]
    exact Run.start.step (.arrive _ _ 0)
  have run : Run trace (⟨.fresh, [⟨.answer askForWork, .inr (.replied replied)⟩], false⟩ :
      (program Ledger.promptSettings 1).System) :=
    fetching.move_last (List.forall_mem_nil _) 0 (.error down) (List.forall_mem_nil _) id rfl
  have proper : ∀ other ∈ movesOf 0 trace, Proper other := by
    intro other member
    cases List.mem_singleton.1 (show other ∈ [move] from member)
    intro query error answered
    cases answered
    decide
  obtain ⟨_, _, _, answered⟩ := (classified_of_run Nat.one_pos run rfl posted proper).2 request held
  obtain ⟨reply, code?, same, sends, classifies⟩ := answered _ rfl
  have failed : code? = some .serverError :=
    classifies.failed.2 ⟨down, move, List.mem_singleton_self move, rfl⟩
  cases same
  rw [failed] at sends
  exact ⟨trace, _, replied, run, posted, proper, rfl, sends⟩

end Server

end MiningPool.Rpc
