/-
Module: MiningPool.Proofs.Rpc.Quantity
Purpose: which texts are quantities, and what a report of a hashrate passes on.
Main exports: Rpc.Quantity, Rpc.SignedQuantity, Rpc.parseQuantity_eq_ok, Rpc.Server.quantities_exact
-/
import MiningPool.Proofs.Number.Hexadecimal
import MiningPool.Proofs.Rpc.Replies

/-!
A quantity is written behind `0x`, with at least one digit of either case and as many zeros in front as one
likes, but its value has to fit into 64 bits. The reader of integers takes a plus sign in front of the digits,
so that a text with this sign is read as well. With any other text a report of a hashrate is refused when it
arrives; with one that is read its value goes to the node, and nothing else does.
-/

namespace MiningPool.Rpc

/-- The text of an integer of 64 bits: at least one digit of either case behind a mark. -/
structure SpelledBehind (mark : List Char) (text : String) (value : Nat) : Prop where
  exists_digits : ∃ digits, digits ≠ [] ∧ (∀ c ∈ digits, Hex.IsDigit c) ∧
    Hex.spelled digits = value ∧ text.toList = mark ++ digits
  fits : value < 2 ^ (64 : Nat)

/-- The text of a quantity. -/
def Quantity : String → Nat → Prop := SpelledBehind ['0', 'x']

/-- The text of a quantity with a plus sign in front of its digits. -/
def SignedQuantity : String → Nat → Prop := SpelledBehind ['0', 'x', '+']

theorem Quantity.not_signed {text : String} {value other : Nat} (quantity : Quantity text value) :
    ¬SignedQuantity text other := by
  rintro ⟨⟨rest, _, _, _, signed⟩, _⟩
  obtain ⟨⟨digits, _, all, _, plain⟩, _⟩ := quantity
  rw [signed] at plain
  have sign : digits = '+' :: rest := by simpa using plain.symm
  rw [sign] at all
  exact absurd (all '+' List.mem_cons_self) (by decide)

theorem parseQuantity_eq_ok {text : String} {value : Nat} :
    parseQuantity text = .ok value ↔ Quantity text value ∨ SignedQuantity text value := by
  rw [parseQuantity]
  split
  · rename_i unmarked
    rw [withoutMark_eq_none] at unmarked
    refine iff_of_false (by rintro ⟨⟩) ?_
    rintro (⟨⟨digits, _, _, _, plain⟩, _⟩ | ⟨⟨digits, _, _, _, signed⟩, _⟩)
    · exact unmarked _ plain
    · exact unmarked _ signed
  · rename_i rest marked
    rw [withoutMark_eq_some] at marked
    have read : Unsigned.parse 16 (2 ^ (64 : Nat)) rest.toList = .ok value ↔
        Quantity text value ∨ SignedQuantity text value := by
      rw [Unsigned.parse_eq_ok (by decide)]
      constructor
      · rintro ⟨digits, plain | signed, some, all, spells, fits⟩
        · exact .inl ⟨⟨digits, some, all, spells, by rw [marked, plain]; rfl⟩, fits⟩
        · exact .inr ⟨⟨digits, some, all, spells, by rw [marked, signed]; rfl⟩, fits⟩
      · rintro (⟨⟨digits, some, all, spells, plain⟩, fits⟩ | ⟨⟨digits, some, all, spells, signed⟩, fits⟩)
        · rw [marked] at plain
          exact ⟨digits, .inl (by simpa using plain), some, all, spells, fits⟩
        · rw [marked] at signed
          exact ⟨digits, .inr (by simpa using signed), some, all, spells, fits⟩
    split
    · rename_i found parsed
      rw [← read, parsed]
      simp
    · rename_i fault parsed
      rw [← read, parsed]
      exact iff_of_false (by rintro ⟨⟩) (by rintro ⟨⟩)

/-- The reader takes the texts of quantities and no others, unless there is a plus sign. -/
theorem readsQuantities_iff (text : String) :
    (∀ value, parseQuantity text = .ok value ↔ Quantity text value) ↔
      ¬∃ value, SignedQuantity text value := by
  simp only [parseQuantity_eq_ok]
  constructor
  · rintro exact ⟨value, signed⟩
    exact ((exact value).1 (.inr signed)).not_signed signed
  · intro unsigned value
    exact or_iff_left fun signed => unsigned ⟨value, signed⟩

/-! ### Reports of a hashrate -/

/-- A report of a hashrate by a miner, with a text for each of the two. -/
structure Request.Reports (request : Request) (rate id : String) : Prop where
  method : request.method = "eth_submitHashrate"
  params : request.params = .array [.string rate, .string id]

namespace Request.Reports

variable {request : Request} {rate id : String}

theorem strings (reports : request.Reports rate id) :
    stringParams 2 request.params = .ok [rate, id] :=
  stringParams_eq_ok.2 ⟨reports.params, rfl⟩

theorem call_eq_ok (reports : request.Reports rate id) {call : Service.Call}
    (asked : request.call = .ok call) : ∃ value hash, call = .submitHashrate value hash ∧
      parseQuantity rate = .ok value ∧ FixedBytes.parse 32 id = .ok hash := by
  simp only [Request.call, reports.method, String.reduceEq, if_false, if_true] at asked
  cases read : hashrate request.params with
  | error fault =>
      rw [read] at asked
      cases asked
  | ok given =>
      rw [read] at asked
      cases asked
      rw [hashrate, reports.strings] at read
      obtain ⟨_, ⟨⟩, read⟩ := bind_eq_ok.1 read
      obtain ⟨value, isRate, read⟩ := bind_eq_ok.1 read
      obtain ⟨hash, isId, read⟩ := bind_eq_ok.1 read
      cases read
      exact ⟨value, hash, rfl, isRate, parseHash_eq_ok.1 isId⟩

theorem call_eq_error (reports : request.Reports rate id) {fault : ParamFault}
    (refused : parseQuantity rate = .error fault) : request.call = .error (.params fault) := by
  simp only [Request.call, reports.method, String.reduceEq, if_false, if_true, hashrate, reports.strings,
    refused, bind, Except.bind, Except.mapError]

theorem misgiven (reports : request.Reports rate id) (wrong : ∀ value, parseQuantity rate ≠ .ok value) :
    request.Misgiven := by
  refine .hashrate reports.method ?_
  rw [reports.params]
  rintro @⟨_, _, value, _, isRate, _⟩
  exact wrong value isRate

end Request.Reports

namespace Server

variable {settings : LedgerSettings} {shareDifficulty : Nat}

/-- A report is passed on in one step, and nothing follows. -/
theorem reporting_of_course {task : Task} {id : Json} {value : Nat} {hash : Hash256}
    {moves : List (program settings shareDifficulty).Move} {stage : Phase ⊕ Result}
    (course : Program.Course task (.inl (Phase.answering ⟨id, .reporting value hash⟩)) moves stage) :
    ∀ phase, stage = .inl phase → phase = .answering ⟨id, .reporting value hash⟩ := by
  induction course with
  | start =>
      rintro _ ⟨⟩
      rfl
  | @step moves move course own ih =>
      intro phase goesOn
      obtain ⟨caller, request, before, data, now, reply⟩ := move
      cases ih before rfl
      cases goesOn

open Program in
/-- What is read of a text is the value of a quantity, perhaps with a plus sign, and any other text is a wrong
parameter; so the texts of quantities are told from the others exactly if there is no such sign. In any run, a
posted report of a hashrate with a text that is not read is answered as a wrong parameter when it arrives, and
nobody is asked anything for it; for any other report nothing but the value of its rate is passed on. -/
theorem quantities_exact (text : String) :
    (∀ value, parseQuantity text = .ok value ↔ Quantity text value ∨ SignedQuantity text value) ∧
    ((¬∃ value, Quantity text value ∨ SignedQuantity text value) →
      ∃ fault, parseQuantity text = .error fault ∧ (Error.params fault).kind = .invalidParams) ∧
    ((∀ value, parseQuantity text = .ok value ↔ Quantity text value) ↔
      ¬∃ value, SignedQuantity text value) ∧
    ∀ (settings : LedgerSettings) (shareDifficulty : Nat)
      (trace : List (program settings shareDifficulty).Event)
      (system : (program settings shareDifficulty).System) (caller : Nat) (message : Message)
      (stage : Phase ⊕ Result) (request : Rpc.Request) (id : String), Run trace system →
        system.calls[caller]? = some ⟨.answer message, stage⟩ → message.Posted →
          message.request = .ok request → request.Reports text id →
            ((¬∃ value, Quantity text value ∨ SignedQuantity text value) →
              movesOf caller trace = [] ∧ ∃ reply, stage = .inr (.replied reply) ∧
                Sends request.id (some .invalidParams) reply.body) ∧
            ∀ move ∈ movesOf caller trace, ∀ exchange, move.exchange? = some exchange →
              ∃ value hash, exchange.query = .submitHashrate value hash ∧
                (Quantity text value ∨ SignedQuantity text value) ∧
                  FixedBytes.parse 32 id = .ok hash := by
  refine ⟨fun value => parseQuantity_eq_ok, ?_, readsQuantities_iff text, ?_⟩
  all_goals simp only [← parseQuantity_eq_ok, not_exists]
  · intro wrong
    cases read : parseQuantity text with
    | error fault => exact ⟨fault, rfl, rfl⟩
    | ok value => exact absurd read (wrong value)
  · intro settings shareDifficulty trace system caller message stage request id run found posted held
      reports
    obtain ⟨_, _, before, now, _, _, _, course⟩ := run.exists_course found
    simp only [begin_of_request posted held, Exchange.serve] at course
    cases asked : request.call with
    | error fault =>
        rw [asked] at course
        obtain ⟨none, rfl⟩ := course.of_answered
        rw [none]
        refine ⟨fun wrong => ⟨rfl, _, rfl, ?_⟩, List.forall_mem_nil _⟩
        obtain ⟨code?, sends, classifies⟩ :=
          @classifies_of_fault settings shareDifficulty request fault asked
        rwa [classifies.misgiven.2 (reports.misgiven wrong)] at sends
    | ok call =>
        obtain ⟨value, hash, rfl, isRate, isId⟩ := reports.call_eq_ok asked
        rw [asked] at course
        refine ⟨fun wrong => absurd isRate (wrong value), ?_⟩
        intro move member exchange answered
        obtain ⟨_, _, _, reached⟩ := course.of_mem member
        have phase := reporting_of_course reached move.phase rfl
        obtain ⟨_, _, _, _, _, reply⟩ := move
        cases phase
        cases answered
        exact ⟨value, hash, rfl, isRate, isId⟩

/-- A report of a rate below zero. -/
def reportBelowZero : Message :=
  ⟨"POST", "/", some "application/json",
    "\x7b\"method\":\"eth_submitHashrate\",\"params\":[\"0x-5\",\"0x00\"]\x7d".toList.map fun c =>
      .ofNat c.toNat⟩

open Program in
/-- The run in which one message arrives. -/
theorem run_arrival (settings : LedgerSettings) (shareDifficulty : Nat) (message : Message) :
    Run [.arrived (Task.answer message)]
      (⟨.fresh, [⟨.answer message, begin settings .fresh 0 (.answer message)⟩], false⟩ :
        (program settings shareDifficulty).System) :=
  Run.start.step (.arrive _ _ 0)

theorem exists_reportBelowZero :
    ∃ request, reportBelowZero.request = .ok request ∧ request.Reports "0x-5" "0x00" := by
  have parts : (Request.parse reportBelowZero.body).toOption.map
      (fun request => (request.method, (stringParams 2 request.params).toOption)) =
      some ("eth_submitHashrate", some ["0x-5", "0x00"]) := by decide +kernel
  obtain ⟨request, parsed, seen⟩ := exists_eq_ok_of_map parts
  obtain ⟨method, texts⟩ := Prod.mk.inj seen
  obtain ⟨given, strings, rfl⟩ := @exists_eq_ok_of_map _ _ _ _ id _ (by simpa using texts)
  refine ⟨request, ?_, method, (stringParams_eq_ok.1 strings).1⟩
  rw [Message.request, if_neg (by decide +kernel), if_neg (by decide +kernel), parsed]

open Program in
theorem quantities_exact_of_minus :
    Quantity "0x00fF" 255 ∧ SignedQuantity "0x+5" 5 ∧ parseQuantity "0x+5" = .ok 5 ∧
      (∀ value, ¬Quantity "0x-5" value) ∧
        ∃ (trace : List (program Ledger.promptSettings 1).Event)
          (system : (program Ledger.promptSettings 1).System) (id : Json) (reply : Reply),
          Run trace system ∧ reportBelowZero.Posted ∧ movesOf 0 trace = [] ∧
            system.calls[0]? = some ⟨.answer reportBelowZero, .inr (.replied reply)⟩ ∧
              Sends id (some .invalidParams) reply.body := by
  have plain : Quantity "0x00fF" 255 :=
    (((quantities_exact "0x00fF").1 255).1 (by decide +kernel)).resolve_right
      (by rintro ⟨⟨digits, _, _, _, signed⟩, _⟩; simp at signed)
  have signed : SignedQuantity "0x+5" 5 := by
    refine ⟨⟨['5'], by decide, ?_, by decide, by decide⟩, by decide⟩
    exact List.forall_mem_singleton.2 (by decide)
  have refused : parseQuantity "0x-5" = .error (.quantity "0x-5" .invalidDigit) := by decide +kernel
  obtain ⟨read, _, _, answered⟩ := quantities_exact "0x-5"
  have negative : ¬∃ value, Quantity "0x-5" value ∨ SignedQuantity "0x-5" value := by
    rintro ⟨value, accepted⟩
    have read := (read value).2 accepted
    rw [refused] at read
    cases read
  refine ⟨plain, signed, ((quantities_exact "0x+5").1 5).2 (.inr signed),
    fun value quantity => negative ⟨value, .inl quantity⟩, ?_⟩
  obtain ⟨request, held, reports⟩ := exists_reportBelowZero
  have posted : reportBelowZero.Posted := ⟨by decide, rfl⟩
  let replied : Reply := .response (.ofCallFault request (.params (.quantity "0x-5" .invalidDigit)))
  have begun : begin Ledger.promptSettings .fresh 0 (.answer reportBelowZero) =
      .inr (.replied replied) := by
    rw [begin_of_request posted held, Exchange.serve, reports.call_eq_error refused]
    rfl
  have arrived := run_arrival Ledger.promptSettings 1 reportBelowZero
  rw [begun] at arrived
  obtain ⟨none, reply, same, sends⟩ :=
    (answered _ _ _ _ 0 _ _ request "0x00" arrived rfl posted held reports).1 negative
  cases same
  exact ⟨_, _, _, _, arrived, posted, none, rfl, sends⟩

end Server

end MiningPool.Rpc
