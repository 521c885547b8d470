/-
Module: MiningPool.Rpc.Exchange
Purpose: answering the messages of miners.
Main exports: Rpc.Message, Rpc.Response, Rpc.Exchange, Rpc.Exchange.activity
-/
import MiningPool.Rpc.MediaType
import MiningPool.Rpc.Request

/-!
Messages are posted to the root of the endpoint. Any other place does not exist, and any other way of
access to the root is not allowed. A message must be declared as JSON, must not be too long, and must hold
a request; otherwise it is answered with a parse error and no identifier. A request is answered with its
identifier and either a result or an error, whose code tells unknown methods and wrong parameters from
failures of the service.
-/

namespace MiningPool.Rpc

/-- A message as it arrives. -/
structure Message where
  method : String
  /-- The path with everything behind it. -/
  target : String
  contentType : Option String
  body : List UInt8

/-- Why a message holds no request. -/
inductive Rejection where
  | contentType
  | tooLong
  | malformed
  | mismatched
deriving Repr, DecidableEq

def Rejection.message : Rejection → String
  | contentType => "Expected request with `Content-Type: application/json`"
  | tooLong => "Failed to buffer the request body"
  | malformed => "Failed to parse the request body as JSON"
  | mismatched => "Failed to deserialize the JSON body into the target type"

/-- The greatest length of a body in bytes. -/
def bodyLimit : Nat := 2097152

/-- The request that a message holds. -/
def Message.request (message : Message) : Except Rejection Request :=
  if !(message.contentType.any MediaType.isJson) then .error .contentType
  else if bodyLimit < message.body.length then .error .tooLong
  else
    match Request.parse message.body with
    | .ok request => .ok request
    | .error .malformed => .error .malformed
    | .error .mismatched => .error .mismatched

/-! ### Responses -/

/-- The codes of errors. -/
inductive ErrorCode where
  | parseError
  | methodNotFound
  | invalidParams
  | serverError
deriving Repr, DecidableEq

def ErrorCode.number : ErrorCode → Int
  | parseError => -32700
  | methodNotFound => -32601
  | invalidParams => -32602
  | serverError => -32000

/-- A result or an error. -/
inductive Outcome where
  | result (value : Json)
  | failure (code : ErrorCode) (message : String)

/-- What a miner is sent. -/
structure Response where
  id : Json
  outcome : Outcome

namespace Response

/-- The text of a response. -/
def text (response : Response) : String :=
  let outcome :=
    match response.outcome with
    | .result value => "\"result\":" ++ value.text
    | .failure code message =>
      "\"error\":\x7b\"code\":" ++ toString code.number ++ ",\"message\":" ++
        Json.stringText message ++ "\x7d"
  "\x7b\"jsonrpc\":\"2.0\",\"id\":" ++ response.id.text ++ "," ++ outcome ++ "\x7d"

/-- The response to a message without a request. -/
def ofRejection (rejection : Rejection) : Response :=
  ⟨.null, .failure .parseError rejection.message⟩

/-- The response to a request that asks for nothing that can be done. -/
def ofCallFault (request : Request) : CallFault → Response
  | .unknownMethod =>
    ⟨request.id, .failure .methodNotFound ("method " ++ request.method ++ " not found")⟩
  | .params fault => ⟨request.id, .failure .invalidParams (Error.params fault).message⟩

/-- What a miner is told, as JSON. -/
def answerJson : Service.Answer → Json
  | .package values => .array (values.map FixedBytes.toJson)
  | .verdict accepted => .bool accepted

/-- The code of a failure of the service. -/
def codeOf (error : Error) : ErrorCode :=
  if error.kind = .invalidParams then .invalidParams else .serverError

/-- The response to a request that has been dealt with. -/
def ofResult (id : Json) : Except Error Service.Answer → Response
  | .ok answer => ⟨id, .result (answerJson answer)⟩
  | .error error => ⟨id, .failure (codeOf error) error.message⟩

end Response

/-- What is sent back for a message. -/
inductive Reply where
  /-- There is nothing at the place. -/
  | notFound
  /-- The way of access is not allowed. -/
  | notAllowed
  | response (sent : Response)

namespace Reply

def status : Reply → Nat
  | notFound => 404
  | notAllowed => 405
  | response _ => 200

def body : Reply → String
  | notFound | notAllowed => ""
  | response sent => sent.text

end Reply

/-! ### Exchanges -/

/-- A request on its way through the service. -/
structure Exchange where
  id : Json
  phase : Service.Phase

namespace Exchange

/-- The path in front of a query or a fragment. -/
def path (target : String) : String :=
  String.ofList (target.toList.takeWhile fun c => c ≠ '?' && c ≠ '#')

/-- The first step of the service for a request. -/
def serve (state : PoolState) (request : Request) : Exchange ⊕ Reply :=
  match request.call with
  | .error fault => .inr (.response (.ofCallFault request fault))
  | .ok call =>
    match Service.begin state call with
    | .inl phase => .inl ⟨request.id, phase⟩
    | .inr result => .inr (.response (.ofResult request.id result))

/-- What a message leads to before anybody is asked. -/
def begin (state : PoolState) (message : Message) : Exchange ⊕ Reply :=
  if path message.target ≠ "/" then .inr .notFound
  else if message.method ≠ "POST" then .inr .notAllowed
  else
    match message.request with
    | .error rejection => .inr (.response (.ofRejection rejection))
    | .ok request => serve state request

/-- An exchange on its own. -/
def activity (settings : LedgerSettings) (shareDifficulty : Nat) :
    Activity pool PoolState Exchange Reply where
  await exchange := Service.await exchange.phase
  resume state _ exchange reply :=
    match Service.resume settings shareDifficulty state exchange.phase reply with
    | (state, .inl phase) => (state, .inl { exchange with phase })
    | (state, .inr result) => (state, .inr (.response (.ofResult exchange.id result)))

end Exchange

end MiningPool.Rpc
