import CexHertz.Lib.FloatText
import CexHertz.Lib.Run
import CexHertz.Service.EventPipeline
import CexHertz.Service.OrderBook
import CexHertz.Service.Sequencer

/-!
# The match engine

`match_engine.go` as a pool of threads: one per `SubmitOrder` call and one worker per symbol. A step
runs one thread up to its next access to something shared: the sequencer, the log, one processor, a
queue, or one turn of the matching loop. What the environment decides is the input of the step.
-/

namespace CexHertz

structure SubmitOrderMsg where
  orderID : String
  symbol : String
  side : String
  price : String
  quantity : String
  userID : String
  deriving DecidableEq, Repr

def SubmitOrderMsg.Missing (order : SubmitOrderMsg) : Prop :=
  order.symbol = "" ∨ order.side = "" ∨ order.userID = ""

instance (order : SubmitOrderMsg) : Decidable order.Missing :=
  inferInstanceAs (Decidable (_ ∨ _ ∨ _))

/-- `Sscanf("%f")` into a zero variable, its error dropped, times `1e8`, as an `int64`. -/
def parseNano (conv : FloatText.IntConversion) (s : String) : Int :=
  FloatText.toInt64 conv (((FloatText.sscanf s.toList).getD (.finite 0)).mulPos (10 ^ 8))

def parsePrice (conv : FloatText.IntConversion) (priceStr : String) : Int := parseNano conv priceStr

def parseQuantity (conv : FloatText.IntConversion) (qtyStr : String) : Int := parseNano conv qtyStr

structure EngineConfig where
  conv : FloatText.IntConversion
  /-- `ProcessorName` of the registered processors. -/
  processors : List String
  /-- `PostgresEventLog.AppendEvent` draws a number of its own, the in-memory log does not. -/
  logDraws : Bool

def EngineConfig.nameOf (cfg : EngineConfig) (i : Nat) : String := cfg.processors.getD i ""

/-! ## Threads -/

/-- How far a `ProcessEvent` call has come; `pending` are the processors still to be run. -/
inductive Publish where
  | append (event : MatchingEngineEvent)
  | dispatch (event : MatchingEngineEvent) (pending : List Nat) (err : Option String)
  | finished (err : Option String)

inductive SubmitPhase where
  | drawOrderID
  | drawSeq
  | publish (call : Publish)
  | enqueue
  | returned (err : Option String)

variable {buyBefore sellBefore : Int → Int → Prop} [DecidableRel buyBefore]
  [DecidableRel sellBefore] (C : Containers buyBefore sellBefore)

inductive WorkerPhase where
  | idle
  | took (msg : SubmitOrderMsg)
  | buying (order : OrderBookEntry) (st : MatchState C.sells)
  | selling (order : OrderBookEntry) (st : MatchState C.buys)
  | publish (call : Publish) (rest : List TradeExecutedEvent)

inductive Thread where
  | submit (order : SubmitOrderMsg) (phase : SubmitPhase)
  | worker (symbol : String) (phase : WorkerPhase C)

/-- What the threads share.  `matched` and `trades` are history: the entries handed to `MatchOrder`
with the messages they were built from, and the trades, in the order they came about. -/
structure Shared where
  sequencer : Sequencer
  log : List MatchingEngineEvent
  pipeline : EventPipeline
  orderQueues : String → List SubmitOrderMsg
  orderBooks : String → Option (OrderBook C)
  matched : List (SubmitOrderMsg × OrderBookEntry)
  trades : List TradeExecutedEvent

structure EngineState where
  shared : Shared C
  threads : List (Thread C)

def newMatchEngine (sequencer : Sequencer) : EngineState C where
  shared :=
    { sequencer := sequencer
      log := []
      pipeline := newEventPipeline
      orderQueues := fun _ => []
      orderBooks := fun _ => none
      matched := []
      trades := [] }
  threads := []

structure StepInput where
  now : Int
  err : Option String
  processor : Nat

/-! ## Steps -/

section

variable {C} (cfg : EngineConfig)

def Publish.step (sh : Shared C) (input : StepInput) : Publish → Option (Shared C × Publish)
  | .append event =>
    let sh :=
      if cfg.logDraws then { sh with sequencer := sh.sequencer.nextGlobalSeq.2 } else sh
    match input.err with
    | some err => some (sh, .finished (some err))
    | none =>
      some ({ sh with log := sh.log ++ [event] },
        .dispatch event (List.range cfg.processors.length) none)
  | .dispatch event pending err =>
    if pending = [] then some (sh, .finished err)
    else if input.processor ∈ pending then
      let procName := cfg.nameOf input.processor
      -- a skipped event is not processed, so nothing can fail
      let answer :=
        if event.eventSeq ≤ sh.pipeline.processorOffsets procName event.symbol then none
        else input.err
      let failed := answer.map fun e => "processor " ++ procName ++ ": " ++ e
      some ({ sh with pipeline := sh.pipeline.dispatch input.processor procName event input.err },
        .dispatch event (pending.erase input.processor) (err.or failed))
    else none
  | .finished _ => none

def submittedEvent (order : SubmitOrderMsg) (seq : Nat) (now : Int) : OrderSubmittedEvent where
  seq := seq
  timestamp := now
  orderID := order.orderID
  userID := order.userID
  symbolStr := order.symbol
  side := order.side
  price := parsePrice cfg.conv order.price
  quantity := parseQuantity cfg.conv order.quantity
  status := "submitted"

def enqueueOrder (sh : Shared C) (order : SubmitOrderMsg) : Shared C × List (Thread C) :=
  let symbol := order.symbol
  let sh := { sh with
    orderQueues := Function.update sh.orderQueues symbol (sh.orderQueues symbol ++ [order]) }
  match sh.orderBooks symbol with
  | some _ => (sh, [])
  | none =>
    ({ sh with orderBooks := Function.update sh.orderBooks symbol (some (newOrderBook C symbol)) },
      [.worker symbol .idle])

def generatedID (now : Int) (seq : Nat) : String := "ord-" ++ toString now ++ "-" ++ toString seq

/-- A step of a `SubmitOrder` call; the list holds the threads it starts. -/
def submitStep (sh : Shared C) (input : StepInput) (order : SubmitOrderMsg) :
    SubmitPhase → Option (Shared C × Thread C × List (Thread C))
  | .drawOrderID =>
    let (seq, sequencer) := sh.sequencer.nextGlobalSeq
    some ({ sh with sequencer := sequencer },
      .submit { order with orderID := generatedID input.now seq } .drawSeq, [])
  | .drawSeq =>
    let (seq, sequencer) := sh.sequencer.nextGlobalSeq
    let event := submittedEvent cfg order seq input.now
    some ({ sh with sequencer := sequencer },
      .submit order (.publish (.append (.orderSubmitted event))), [])
  | .publish (.finished none) => some (sh, .submit order .enqueue, [])
  | .publish (.finished (some err)) => some (sh, .submit order (.returned (some err)), [])
  | .publish call =>
    (call.step cfg sh input).map fun r => (r.1, .submit order (.publish r.2), [])
  | .enqueue =>
    -- a full channel blocks the caller
    if (sh.orderQueues order.symbol).length < 10000 then
      let (sh, started) := enqueueOrder sh order
      some (sh, .submit order (.returned none), started)
    else none
  | .returned _ => none

def bookEntry (symbol : String) (orderMsg : SubmitOrderMsg) (now : Int) (seq : Nat) :
    OrderBookEntry where
  orderID := orderMsg.orderID
  userID := orderMsg.userID
  symbol := symbol
  side := orderMsg.side
  price := parsePrice cfg.conv orderMsg.price
  quantity := parseQuantity cfg.conv orderMsg.quantity
  filledQty := 0
  submitTime := now
  sequenceNum := seq

def nextTrade : List TradeExecutedEvent → WorkerPhase C
  | [] => .idle
  | trade :: rest => .publish (.append (.tradeExecuted trade)) rest

def matchTurn {before : Int → Int → Prop} [DecidableRel before] {L : Levels before}
    (sh : Shared C) (body : (Nat → Stamp) → MatchState L → Option (MatchState L)) (now : Int)
    (st : MatchState L) : Option (Shared C × MatchState L) :=
  let (seq, sequencer) := sh.sequencer.nextGlobalSeq
  (body (fun _ => ⟨seq, now⟩) st).map fun st' =>
    if st'.events.length = st.events.length then (sh, st')
    else
      ({ sh with
          sequencer := sequencer
          trades := sh.trades ++ st'.events.drop st.events.length }, st')

def storeBook (sh : Shared C) (symbol : String) (ob : OrderBook C) : Shared C :=
  { sh with orderBooks := Function.update sh.orderBooks symbol (some ob) }

/-- The end of `MatchOrder`: the order is recorded and its trades go to the pipeline. -/
def finishMatch (sh : Shared C) (symbol : String) (result : MatchResult C) :
    Shared C × WorkerPhase C :=
  (storeBook sh symbol result.book, nextTrade result.events)

def workerStep (sh : Shared C) (input : StepInput) (symbol : String) (ob : OrderBook C) :
    WorkerPhase C → Option (Shared C × WorkerPhase C)
  | .idle =>
    match sh.orderQueues symbol with
    | [] => none
    | msg :: rest =>
      some ({ sh with orderQueues := Function.update sh.orderQueues symbol rest }, .took msg)
  | .took msg =>
    let (seq, sequencer) := sh.sequencer.nextGlobalSeq
    let order := bookEntry cfg symbol msg input.now seq
    let sh := { sh with sequencer := sequencer, matched := sh.matched ++ [(msg, order)] }
    if order.side = "buy" then some (sh, .buying order (matchStart C.sells ob.sells order))
    else some (sh, .selling order (matchStart C.buys ob.buys order))
  | .buying order st =>
    match matchTurn sh (fun stamp => (matchBuyLoop C ob.symbol order stamp).body) input.now st with
    | some (sh, st') =>
      some (storeBook sh symbol { ob with sells := st'.levels }, .buying order st')
    | none =>
      some (finishMatch sh symbol
        (recordOrder { ob with sells := st.levels } order st.events st.remainingQty))
  | .selling order st =>
    match matchTurn sh (fun stamp => (matchSellLoop C ob.symbol order stamp).body) input.now st with
    | some (sh, st') =>
      some (storeBook sh symbol { ob with buys := st'.levels }, .selling order st')
    | none =>
      some (finishMatch sh symbol
        (recordOrder { ob with buys := st.levels } order st.events st.remainingQty))
  | .publish (.finished _) rest => some (sh, nextTrade rest)
  | .publish call rest => (call.step cfg sh input).map fun r => (r.1, .publish r.2 rest)

def Thread.step (sh : Shared C) (input : StepInput) :
    Thread C → Option (Shared C × Thread C × List (Thread C))
  | .submit order phase => submitStep cfg sh input order phase
  | .worker symbol phase =>
    match sh.orderBooks symbol with
    | none => none
    | some ob =>
      (workerStep cfg sh input symbol ob phase).map fun r => (r.1, .worker symbol r.2, [])

/-- The start of `SubmitOrder`: required fields, and an id if the message has none. -/
def submitOrder (order : SubmitOrderMsg) : Thread C :=
  if order.Missing then
    .submit order (.returned (some "invalid order: missing required fields"))
  else if order.orderID = "" then .submit order .drawOrderID
  else .submit order .drawSeq

inductive EngineAction where
  | submitOrder (order : SubmitOrderMsg)
  | advance (thread : Nat) (input : StepInput)

def EngineState.step (s : EngineState C) : EngineAction → Option (EngineState C)
  | .submitOrder order => some { s with threads := s.threads ++ [CexHertz.submitOrder order] }
  | .advance k input =>
    match s.threads[k]? with
    | none => none
    | some th =>
      match th.step cfg s.shared input with
      | none => none
      | some (sh, th', started) => some ⟨sh, s.threads.set k th' ++ started⟩

end

end CexHertz
