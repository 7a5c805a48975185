import CexHertz.Handler.CancelOrder
import CexHertz.Model.Amount

/-!
# The database processor

`DatabaseProcessor.ProcessEvent` over the `orders` and `trades` tables. Both inserts do nothing on a
conflict, so the first event of an id decides its row. The update of a cancelled order asks for the
status "active", which no submitted order has.
-/

namespace CexHertz

open List Table OrderRow

/-! ## The `trades` table -/

structure TradeRow where
  tradeID : String
  symbol : String
  price : String
  quantity : String
  timestamp : Int
  takerOrderID : String
  makerOrderID : String
  side : String
  engineID : String
  takerUser : String
  makerUser : String
  deriving DecidableEq, Repr

namespace DatabaseProcessor

def tradeRow (e : TradeExecutedEvent) : TradeRow where
  tradeID := e.tradeID
  symbol := e.symbolStr
  price := Model.nanoString e.price
  quantity := Model.nanoString e.quantity
  timestamp := e.timestamp
  takerOrderID := e.takerOrderID
  makerOrderID := e.makerOrderID
  side := e.takerSide
  engineID := ""
  takerUser := e.takerUser
  makerUser := e.makerUser

def handleTradeExecuted (trades : List TradeRow) (e : TradeExecutedEvent) : List TradeRow :=
  insertNew TradeRow.tradeID trades (tradeRow e)

structure Database where
  trades : List TradeRow
  orders : List OrderRow
  deriving DecidableEq, Repr

def Database.empty : Database := ⟨[], []⟩

def process (db : Database) (delivery : Int × MatchingEngineEvent) : Database :=
  match delivery.2 with
  | .tradeExecuted e => { db with trades := handleTradeExecuted db.trades e }
  | .orderSubmitted e => { db with orders := handleOrderSubmitted db.orders e }
  | .orderCancelled e => { db with orders := handleOrderCancelled db.orders e delivery.1 }

def processAll (events : List (Int × MatchingEngineEvent)) : Database :=
  events.foldl process .empty

/-! ## What the events say -/

def submission : Int × MatchingEngineEvent → Option OrderSubmittedEvent
  | (_, .orderSubmitted e) => some e
  | _ => none

def trade : Int × MatchingEngineEvent → Option TradeExecutedEvent
  | (_, .tradeExecuted e) => some e
  | _ => none

def submissions (events : List (Int × MatchingEngineEvent)) : List OrderSubmittedEvent :=
  events.filterMap submission

def executions (events : List (Int × MatchingEngineEvent)) : List TradeExecutedEvent :=
  events.filterMap trade

def Cancels (orderID : String) (events : List (Int × MatchingEngineEvent)) : Prop :=
  ∃ now c, (now, .orderCancelled c) ∈ events ∧ c.orderID = orderID

def orderRow (e : OrderSubmittedEvent) : OrderRow where
  orderID := e.orderID
  userID := e.userID
  symbol := e.symbolStr
  side := e.side
  price := e.price
  quantity := e.quantity
  status := e.status
  createdAt := e.timestamp
  updatedAt := e.timestamp

def Produced (e : OrderSubmittedEvent) : Prop :=
  ∃ (cfg : EngineConfig) (order : SubmitOrderMsg) (seq : Nat) (now : Int),
    e = submittedEvent cfg order seq now

theorem Produced.status {e : OrderSubmittedEvent} (h : Produced e) : e.status = "submitted" := by
  obtain ⟨cfg, order, seq, now, rfl⟩ := h
  rfl

theorem handleOrderSubmitted_eq (orders : List OrderRow) (e : OrderSubmittedEvent) :
    handleOrderSubmitted orders e = insertNew orderID orders (orderRow e) := by
  unfold handleOrderSubmitted insertNew
  rw [show (orderRow e).orderID = e.orderID from rfl]
  cases row orderID e.orderID orders <;> rfl

/-! ## The tables after a run -/

def Inactive (orders : List OrderRow) : Prop := ∀ row ∈ orders, row.status ≠ "active"

-- The condition of the update selects nothing.
theorem Inactive.handleOrderCancelled {orders : List OrderRow} (h : Inactive orders)
    (e : OrderCancelledEvent) (now : Int) : handleOrderCancelled orders e now = orders := by
  conv_rhs => rw [← map_id orders]
  apply map_congr_left
  intro row hrow
  simp [h row hrow]

theorem Inactive.insertNew {orders : List OrderRow} (h : Inactive orders) {row : OrderRow}
    (hrow : row.status ≠ "active") : Inactive (insertNew orderID orders row) := by
  unfold Table.insertNew
  split
  next => exact h
  next =>
    intro other hmem
    rcases List.mem_append.mp hmem with hmem | hmem
    · exact h other hmem
    · rwa [List.mem_singleton.mp hmem]

/-- Only the submissions count: the `orders` table is what inserting their rows makes of it. -/
theorem foldl_process_orders {events : List (Int × MatchingEngineEvent)} {db : Database}
    (hevents : ∀ e ∈ submissions events, Produced e) (hdb : Inactive db.orders) :
    (events.foldl process db).orders =
      ((submissions events).map orderRow).foldl (insertNew orderID) db.orders := by
  induction events generalizing db with
  | nil => rfl
  | cons delivery events ih =>
    obtain ⟨now, event⟩ := delivery
    rw [foldl_cons]
    cases event with
    | tradeExecuted e => exact ih hevents hdb
    | orderSubmitted e =>
      have hstatus : (orderRow e).status ≠ "active" := by
        show e.status ≠ "active"
        rw [(hevents e mem_cons_self).status]
        decide
      rw [show process db (now, .orderSubmitted e) =
        { db with orders := handleOrderSubmitted db.orders e } from rfl,
        handleOrderSubmitted_eq]
      exact ih (fun e he => hevents e (.tail _ he)) (hdb.insertNew hstatus)
    | orderCancelled c =>
      have hsame : process db (now, .orderCancelled c) = db := by
        unfold process
        dsimp only
        rw [hdb.handleOrderCancelled]
      rw [hsame]
      exact ih hevents hdb

theorem foldl_process_trades (events : List (Int × MatchingEngineEvent)) (db : Database) :
    (events.foldl process db).trades =
      ((executions events).map tradeRow).foldl (insertNew TradeRow.tradeID) db.trades := by
  induction events generalizing db with
  | nil => rfl
  | cons delivery events ih =>
    obtain ⟨now, event⟩ := delivery
    cases event <;> exact ih _

section

variable {events : List (Int × MatchingEngineEvent)}

theorem row_orders (hevents : ∀ e ∈ submissions events, Produced e) (orderID : String) :
    row OrderRow.orderID orderID (processAll events).orders =
      ((submissions events).find? fun e => e.orderID = orderID).map orderRow := by
  unfold processAll
  rw [foldl_process_orders hevents (by simp [Inactive, Database.empty]), row_foldl_insertNew]
  exact row_map (fun _ => rfl) _

theorem unique_orders (hevents : ∀ e ∈ submissions events, Produced e) :
    Table.Unique orderID (processAll events).orders := by
  unfold processAll
  rw [foldl_process_orders hevents (by simp [Inactive, Database.empty])]
  apply Table.Unique.foldl_insertNew
  exact nodup_nil

theorem row_trades (tradeID : String) : row TradeRow.tradeID tradeID (processAll events).trades =
      ((executions events).find? fun e => e.tradeID = tradeID).map tradeRow := by
  unfold processAll
  rw [foldl_process_trades, row_foldl_insertNew]
  exact row_map (fun _ => rfl) _

theorem unique_trades : Table.Unique TradeRow.tradeID (processAll events).trades := by
  unfold processAll
  rw [foldl_process_trades]
  apply Table.Unique.foldl_insertNew
  exact nodup_nil

/-! ## Cancellation reaches the table -/

/-- What the two tables say after the events, and after every beginning of them. -/
structure Reflected (events : List (Int × MatchingEngineEvent)) : Prop where
  cancelled : ∀ pre now c mid post, events = pre ++ (now, .orderCancelled c) :: (mid ++ post) →
    (∃ e ∈ submissions pre, e.orderID = c.orderID) →
    ∃ row, Table.row orderID c.orderID
        (processAll (pre ++ (now, .orderCancelled c) :: mid)).orders = some row ∧
      row.status = "cancelled"
  untouched : ∀ orderID e, (submissions events).find? (fun e => e.orderID = orderID) = some e →
    ¬ Cancels orderID events →
    (processAll events).orders.filter (fun row => row.orderID = orderID) = [orderRow e]
  order : ∀ orderID e, (submissions events).find? (fun e => e.orderID = orderID) = some e →
    ∃ row, (processAll events).orders.filter (fun row => row.orderID = orderID) = [row] ∧
      { row with status := e.status, updatedAt := e.timestamp } = orderRow e
  trade : ∀ tradeID e, (executions events).find? (fun e => e.tradeID = tradeID) = some e →
    (processAll events).trades.filter (fun row => row.tradeID = tradeID) = [tradeRow e]

theorem filter_orders (hevents : ∀ e ∈ submissions events, Produced e) {orderID : String}
    {e : OrderSubmittedEvent}
    (he : (submissions events).find? (fun e => e.orderID = orderID) = some e) :
    (processAll events).orders.filter (fun row => row.orderID = orderID) = [orderRow e] := by
  apply (unique_orders hevents).filter_eq
  rw [row_orders hevents, he, Option.map_some]

theorem filter_trades {tradeID : String} {e : TradeExecutedEvent}
    (he : (executions events).find? (fun e => e.tradeID = tradeID) = some e) :
    (processAll events).trades.filter (fun row => row.tradeID = tradeID) = [tradeRow e] := by
  apply unique_trades.filter_eq
  rw [row_trades, he, Option.map_some]

theorem not_cancelled (hevents : ∀ e ∈ submissions events, Produced e) {orderID : String}
    {row : OrderRow}
    (hrow : Table.row OrderRow.orderID orderID (processAll events).orders = some row) :
    row.status ≠ "cancelled" := by
  rw [row_orders hevents] at hrow
  obtain ⟨e, he, rfl⟩ := Option.map_eq_some_iff.mp hrow
  show e.status ≠ "cancelled"
  rw [(hevents e (List.mem_of_find?_eq_some he)).status]
  decide

/-- For every sequence of events whose submissions are the engine's, the tables reflect it exactly
when it cancels no order that it submitted before. -/
theorem reflected_iff (events : List (Int × MatchingEngineEvent))
    (hevents : ∀ e ∈ submissions events, Produced e) :
    Reflected events ↔ ∀ pre now c post, events = pre ++ (now, .orderCancelled c) :: post →
      ∀ e ∈ submissions pre, e.orderID ≠ c.orderID := by
  constructor
  · intro h pre now c post hsplit e he hid
    obtain ⟨row, hrow, hstatus⟩ := h.cancelled pre now c post [] (by rw [append_nil, hsplit])
      ⟨e, he, hid⟩
    rw [← hsplit] at hrow
    exact not_cancelled hevents hrow hstatus
  · intro h
    exact {
      cancelled := by
        intro pre now c mid post hsplit hearlier
        obtain ⟨e, he, hid⟩ := hearlier
        exact absurd hid (h pre now c (mid ++ post) hsplit e he)
      untouched := fun orderID e he _ => filter_orders hevents he
      order := fun orderID e he => ⟨orderRow e, filter_orders hevents he, rfl⟩
      trade := fun tradeID e he => filter_trades he }

end

/-! ### One order of the engine -/

def aliceOrder : OrderSubmittedEvent :=
  submittedEvent ⟨.amd64, ["DatabaseProcessor"], false⟩
    ⟨"o1", "BTC/USDT", "buy", "1", "1", "alice"⟩ 1 100

theorem produced_aliceOrder : Produced aliceOrder := ⟨_, _, _, _, rfl⟩

def cancelOf (orderID : String) : MatchingEngineEvent :=
  .orderCancelled ⟨2, 200, orderID, "BTC/USDT", "user"⟩

def submittedTwice : List (Int × MatchingEngineEvent) :=
  [(100, .orderSubmitted aliceOrder), (200, cancelOf "o2"), (300, .orderSubmitted aliceOrder)]

theorem eq_of_mem_submittedTwice (e : OrderSubmittedEvent) (he : e ∈ submissions submittedTwice) :
    e = aliceOrder := by
  rw [show submissions submittedTwice = [aliceOrder, aliceOrder] from rfl] at he
  simpa only [mem_cons, not_mem_nil, or_false, or_self] using he

/-- Submitted twice, with a cancel of another order in between. -/
theorem reflected_submittedTwice : Reflected submittedTwice := by
  apply (reflected_iff _ ?_).mpr
  · intro pre now c post hsplit e he
    have hcancel : c.orderID = "o2" := by
      have hmem : (now, .orderCancelled c) ∈ submittedTwice := by simp [hsplit]
      simp only [submittedTwice, cancelOf, mem_cons, Prod.mk.injEq, reduceCtorEq, and_false,
        false_or, or_false, MatchingEngineEvent.orderCancelled.injEq, not_mem_nil] at hmem
      rw [hmem.2]
    have horder : e = aliceOrder := by
      apply eq_of_mem_submittedTwice
      rw [hsplit, submissions, filterMap_append]
      exact mem_append_left _ he
    rw [hcancel, horder]
    decide
  · intro e he
    exact eq_of_mem_submittedTwice e he ▸ produced_aliceOrder

/-- Submitted and then cancelled: the row still says "submitted". -/
theorem submitted_row_outlives_cancel :
    let events := [(100, .orderSubmitted aliceOrder), (200, cancelOf "o1")]
    (∀ e ∈ submissions events, Produced e) ∧
      (processAll events).orders.map status = ["submitted"] ∧ ¬ Reflected events := by
  have hevents : ∀ e ∈ submissions [(100, .orderSubmitted aliceOrder), (200, cancelOf "o1")],
      Produced e := by
    intro e he
    have : e = aliceOrder := by simpa [submissions, submission, cancelOf] using he
    exact this ▸ produced_aliceOrder
  refine ⟨hevents, rfl, fun h => ?_⟩
  obtain ⟨row, hrow, hstatus⟩ := h.cancelled [(100, .orderSubmitted aliceOrder)] 200 _ [] [] rfl
    ⟨aliceOrder, by simp [submissions, submission], rfl⟩
  exact not_cancelled hevents hrow hstatus

end DatabaseProcessor

end CexHertz
