import CexHertz.Lib.Table
import CexHertz.Service.MatchEngine

/-!
# The cancel handler

`handler.CancelOrder` beside a running engine. They meet in the `orders` table only: the
`DatabaseProcessor` inserts a row per submitted order, the handler looks the row up and then changes
its status. `cancelled` is history: orders whose cancel was answered with success, with the number
of trades at that moment.
-/

namespace CexHertz

/-! ## The `orders` table -/

structure OrderRow where
  orderID : String
  userID : String
  symbol : String
  side : String
  price : Int
  quantity : Int
  status : String
  createdAt : Int
  updatedAt : Int
  deriving DecidableEq, Repr

/-- `pg.GetOrderByID`; `err` is what the database answers. -/
def getOrderByID (orders : List OrderRow) (orderID : String) (err : Option String) :
    Except String OrderRow :=
  match err with
  | some e => .error e
  | none =>
    match Table.row OrderRow.orderID orderID orders with
    | none => .error "record not found"
    | some order => .ok order

def setStatus (orders : List OrderRow) (selected : OrderRow → Bool) (status : String) (now : Int) :
    List OrderRow :=
  orders.map fun row =>
    if selected row then { row with status := status, updatedAt := now } else row

/-- `pg.UpdateOrderStatus`; it is no error to find no row. -/
def updateOrderStatus (orders : List OrderRow) (orderID status : String) (now : Int)
    (err : Option String) : Except String (List OrderRow) :=
  match err with
  | some e => .error e
  | none => .ok (setStatus orders (fun row => row.orderID = orderID) status now)

namespace DatabaseProcessor

def handleOrderSubmitted (orders : List OrderRow) (e : OrderSubmittedEvent) : List OrderRow :=
  match Table.row OrderRow.orderID e.orderID orders with
  | some _ => orders
  | none =>
    orders ++
      [{ orderID := e.orderID
         userID := e.userID
         symbol := e.symbolStr
         side := e.side
         price := e.price
         quantity := e.quantity
         status := e.status
         createdAt := e.timestamp
         updatedAt := e.timestamp }]

def handleOrderCancelled (orders : List OrderRow) (e : OrderCancelledEvent) (now : Int) :
    List OrderRow :=
  setStatus orders (fun row => row.orderID = e.orderID && row.status = "active") "cancelled" now

/-- What a successful `ProcessEvent` does to the table; trades go to a table of their own. -/
def processEvent (now : Int) (orders : List OrderRow) : MatchingEngineEvent → List OrderRow
  | .tradeExecuted _ => orders
  | .orderSubmitted e => handleOrderSubmitted orders e
  | .orderCancelled e => handleOrderCancelled orders e now

end DatabaseProcessor

/-! ## The handler -/

structure CancelOrderRequest where
  orderID : String
  userID : String
  deriving DecidableEq, Repr

structure Response where
  code : Nat
  body : List (String × String)
  deriving DecidableEq, Repr

/-- How far a `CancelOrder` call has come; a request that does not bind is `none`. -/
inductive CancelCall where
  | received (req : Option CancelOrderRequest)
  | found (req : CancelOrderRequest) (order : OrderRow)
  | answered (response : Response)
  deriving DecidableEq

structure AccessInput where
  now : Int
  err : Option String

def cancelSucceeded (orderID : String) : Response :=
  ⟨200, [("order_id", orderID), ("status", "cancelled")]⟩

def CancelCall.step (orders : List OrderRow) (input : AccessInput) :
    CancelCall → Option (List OrderRow × CancelCall)
  | .received none => some (orders, .answered ⟨400, [("error", "invalid request")]⟩)
  | .received (some req) =>
    let refused := .answered ⟨404, [("error", "order not found or user mismatch")]⟩
    match getOrderByID orders req.orderID input.err with
    | .error _ => some (orders, refused)
    | .ok order =>
      if order.userID ≠ req.userID then some (orders, refused)
      else some (orders, .found req order)
  | .found req _ =>
    match updateOrderStatus orders req.orderID "cancelled" input.now input.err with
    | .error e => some (orders, .answered ⟨500, [("error", e)]⟩)
    | .ok orders => some (orders, .answered (cancelSucceeded req.orderID))
  | .answered _ => none

/-! ## Engine, table and handler together -/

variable {buyBefore sellBefore : Int → Int → Prop} [DecidableRel buyBefore]
  [DecidableRel sellBefore]

structure Cancellation where
  orderID : String
  symbol : String
  tradesBefore : Nat
  deriving DecidableEq, Repr

structure Exchange (C : Containers buyBefore sellBefore) where
  engine : EngineState C
  orders : List OrderRow
  requests : List CancelCall
  cancelled : List Cancellation

def newExchange (C : Containers buyBefore sellBefore) (sequencer : Sequencer) : Exchange C :=
  ⟨newMatchEngine C sequencer, [], [], []⟩

inductive ExchangeAction where
  | engine (action : EngineAction)
  | cancelOrder (req : Option CancelOrderRequest)
  | advance (request : Nat) (input : AccessInput)

section

variable {C : Containers buyBefore sellBefore} (cfg : EngineConfig)

def writeProcessed (now : Int) (before after : EventPipeline) (orders : List OrderRow) :
    List OrderRow :=
  (after.processed.drop before.processed.length).foldl
    (fun orders d =>
      if cfg.nameOf d.1 = "DatabaseProcessor" then DatabaseProcessor.processEvent now orders d.2
      else orders) orders

def EngineAction.now : EngineAction → Int
  | .submitOrder _ => 0
  | .advance _ input => input.now

def completedCancel (trades : List TradeExecutedEvent) : CancelCall → CancelCall → List Cancellation
  | .found req order, .answered response =>
    if response.code = 200 then [⟨req.orderID, order.symbol, trades.length⟩] else []
  | _, _ => []

def Exchange.step (x : Exchange C) : ExchangeAction → Option (Exchange C)
  | .engine action =>
    (x.engine.step cfg action).map fun engine =>
      { x with
        engine := engine
        orders := writeProcessed cfg action.now x.engine.shared.pipeline engine.shared.pipeline
          x.orders }
  | .cancelOrder req => some { x with requests := x.requests ++ [.received req] }
  | .advance k input =>
    match x.requests[k]? with
    | none => none
    | some call =>
      (call.step x.orders input).map fun r =>
        { x with
          orders := r.1
          requests := x.requests.set k r.2
          cancelled := x.cancelled ++ completedCancel x.engine.shared.trades call r.2 }

end

/-! ## What a step does -/

section

variable {C : Containers buyBefore sellBefore} {cfg : EngineConfig} {x x' : Exchange C}
  {action : ExchangeAction}

theorem CancelCall.completes {orders : List OrderRow} {input : AccessInput}
    {call : CancelCall} {r : List OrderRow × CancelCall} (trades : List TradeExecutedEvent)
    (h : call.step orders input = some r) :
    completedCancel trades call r.2 = [] ∨ ∃ req order, call = .found req order ∧ input.err = none ∧
      completedCancel trades call r.2 = [⟨req.orderID, order.symbol, trades.length⟩] := by
  cases call with
  | received req => exact .inl rfl
  | found req order =>
    cases herr : input.err with
    | some e =>
      simp only [CancelCall.step, updateOrderStatus, herr, Option.some.injEq] at h
      subst h
      exact .inl rfl
    | none =>
      simp only [CancelCall.step, updateOrderStatus, herr, Option.some.injEq] at h
      subst h
      exact .inr ⟨req, order, rfl, rfl, rfl⟩
  | answered response => exact .inl rfl

/-- A step is one of the engine, one of a call that completes no cancel, or the update that
completes one. -/
theorem Exchange.step_cases (h : x.step cfg action = some x') :
    (∃ a, action = .engine a ∧ x.engine.step cfg a = some x'.engine ∧ x'.cancelled = x.cancelled) ∨
    (x'.engine = x.engine ∧ x'.cancelled = x.cancelled) ∨
    (∃ k input req order, action = .advance k input ∧ input.err = none ∧
      x.requests[k]? = some (.found req order) ∧ x'.engine = x.engine ∧
      x'.cancelled = x.cancelled ++
        [⟨req.orderID, order.symbol, x.engine.shared.trades.length⟩]) := by
  cases action with
  | engine a =>
    obtain ⟨engine, hengine, rfl⟩ := Option.map_eq_some_iff.mp h
    exact .inl ⟨a, rfl, hengine, rfl⟩
  | cancelOrder req =>
    cases h
    exact .inr (.inl ⟨rfl, rfl⟩)
  | advance k input =>
    rw [Exchange.step] at h
    split at h
    next => cases h
    next call hk =>
      obtain ⟨r, hr, rfl⟩ := Option.map_eq_some_iff.mp h
      rcases CancelCall.completes x.engine.shared.trades hr with
        heq | ⟨req, order, rfl, herr, heq⟩
      · refine .inr (.inl ⟨rfl, ?_⟩)
        dsimp only
        rw [heq, List.append_nil]
      · refine .inr (.inr ⟨k, input, req, order, rfl, herr, hk, rfl, ?_⟩)
        dsimp only
        rw [heq]

end

end CexHertz
