/-
Module: MiningPool.Work.Service
Purpose: what miners ask of the pool: work, verdicts on solutions, and reports of their hashrate.
Main exports: PoolState, Service.Call, Service.begin, Service.activity
-/
import MiningPool.Ledger.Rotation

/-!
Work comes from the node and is remembered under the hash that miners work on. A solution for unknown work
is refused. Any other one is classified: a full block goes to the node, and its work is forgotten once the
node has accepted it; a valid share goes to the current claim; everything else is refused.

A solution is classified in a task of its own, which is taken to run to its end: it neither panics nor is
cancelled on the way.

A share that the claim holds already is refused. A share that is kept counts for the miner even if the
claim could not be submitted after it, unless that failure is fatal, which stops the whole pool.
-/

namespace MiningPool

/-- The claims, the work that can be claimed, and whether everything has been told to stop. -/
structure PoolState where
  ledger : Ledger
  works : WorkPool
  stopped : Bool

def PoolState.fresh : PoolState := ⟨Ledger.fresh, WorkPool.empty, false⟩

namespace Service

/-- What a miner asks. -/
inductive Call where
  | getWork
  | submitWork (nonce : BlockNonce) (powHash mixDigest : Hash256)
  | submitHashrate (rate : Nat) (id : Hash256)
deriving DecidableEq

/-- What a miner is told. -/
inductive Answer where
  | package (values : List Hash256)
  | verdict (accepted : Bool)
deriving DecidableEq

/-- How far an answer has come. -/
inductive Phase where
  /-- Asking the node for work. -/
  | fetching
  /-- Asking what a solution is worth. -/
  | classifying (share : Share) (powHash : Hash256)
  /-- Passing a full block on to the node. -/
  | forwarding (share : Share) (powHash : Hash256)
  /-- Taking a share into the current claim. -/
  | keeping (rotation : Rotation.Phase)
  /-- Passing a hashrate on to the node. -/
  | reporting (rate : Nat) (id : Hash256)

abbrev Next := Phase ⊕ Except Error Answer

def await : Phase → Await pool
  | .fetching => .ask .getWork
  | .classifying share _ => .ask (.solutionState share)
  | .forwarding share powHash => .ask (.submitWork share.nonce powHash share.mixDigest)
  | .keeping rotation => Rotation.await rotation
  | .reporting rate id => .ask (.submitHashrate rate id)

/-- The first step, which needs no answer. -/
def begin (state : PoolState) : Call → Next
  | .getWork => .inl .fetching
  | .submitWork nonce powHash mixDigest =>
    match state.works.get? powHash with
    | none => .inr (.ok (.verdict false))
    | some work =>
      .inl (.classifying (Share.unclassified work.header work.shareDifficulty nonce mixDigest) powHash)
  | .submitHashrate rate id => .inl (.reporting rate id)

/-- Remembers a template as work. -/
def remember (shareDifficulty : Nat) (state : PoolState) (template : BlockTemplate) :
    PoolState × Except Error Answer :=
  match Work.ofTemplate template shareDifficulty with
  | .error error => (state, .error error)
  | .ok work => ({ state with works := state.works.insert work }, .ok (.package work.package))

/-- What a miner is told of a share that went to the current claim. -/
def settle (state : PoolState) : Except Error Rotation.Outcome → PoolState × Except Error Answer
  | .ok .duplicate => (state, .ok (.verdict false))
  | .ok (.kept _) => (state, .ok (.verdict true))
  | .error error =>
    if error.fatal then ({ state with stopped := true }, .error error)
    else (state, .ok (.verdict true))

/-- The step after the node has been asked for work. -/
def fetched (shareDifficulty : Nat) (state : PoolState) :
    Except Error BlockTemplate → PoolState × Except Error Answer
  | .error error => (state, .error error)
  | .ok template => remember shareDifficulty state template

/-- The step after a solution has been classified. -/
def classified (share : Share) (powHash : Hash256) : Except Error SolutionState → Next
  | .error error => .inr (.error error)
  | .ok .fullBlock => .inl (.forwarding { share with state := .fullBlock } powHash)
  | .ok .validShare => .inl (.keeping (.entering (some { share with state := .validShare })))
  | .ok .invalid => .inr (.ok (.verdict false))

/-- The step after a full block has been passed on. -/
def forwarded (state : PoolState) (powHash : Hash256) :
    Except Error Bool → PoolState × Except Error Answer
  | .error error => (state, .error error)
  | .ok true => ({ state with works := state.works.erase powHash }, .ok (.verdict true))
  | .ok false => (state, .ok (.verdict false))

/-- The step after a hashrate has been passed on. -/
def reported : Except Error Bool → Except Error Answer
  | .error error => .error error
  | .ok accepted => .ok (.verdict accepted)

def resume (settings : LedgerSettings) (shareDifficulty : Nat) (state : PoolState) :
    (phase : Phase) → (await phase).Reply → PoolState × Next
  | .fetching, outcome =>
    let (state, result) := fetched shareDifficulty state outcome
    (state, .inr result)
  | .classifying share powHash, outcome => (state, classified share powHash outcome)
  | .forwarding _ powHash, outcome =>
    let (state, result) := forwarded state powHash outcome
    (state, .inr result)
  | .keeping rotation, reply =>
    match Rotation.resume settings state.ledger rotation reply with
    | (ledger, .inl rotation) => ({ state with ledger }, .inl (.keeping rotation))
    | (ledger, .inr outcome) =>
      let (state, result) := settle { state with ledger } outcome
      (state, .inr result)
  | .reporting _ _, outcome => (state, .inr (reported outcome))

/-- Answering a miner on its own. -/
def activity (settings : LedgerSettings) (shareDifficulty : Nat) :
    Activity pool PoolState Phase (Except Error Answer) where
  await := await
  resume state _ phase reply := resume settings shareDifficulty state phase reply

end Service

end MiningPool
