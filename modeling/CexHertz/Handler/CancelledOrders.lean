import CexHertz.Handler.CancelOrder
import CexHertz.Service.Delivery
import CexHertz.Service.EngineInvariant

/-!
# Trades of cancelled orders

A cancel changes a row of `orders` and nothing in the engine, so an order on its way to the book, or
resting in it, trades on. It never trades again if the engine does not hold it when its cancel
completes and its id does not come back.
-/

namespace CexHertz

open List Thread

variable {buyBefore sellBefore : Int → Int → Prop} [DecidableRel buyBefore]
  [DecidableRel sellBefore] {C : Containers buyBefore sellBefore} {cfg : EngineConfig}

/-! ## Where the engine holds an order -/

def someWithID (orders : List OrderBookEntry) (orderID : String) : Bool :=
  orders.any fun x => x.orderID = orderID

def WorkerPhase.holds (orderID : String) : WorkerPhase C → Bool
  | .took msg => msg.orderID = orderID
  | .buying order st =>
    order.orderID = orderID || someWithID (restingOrders (C.sells.elements st.levels)) orderID
  | .selling order st =>
    order.orderID = orderID || someWithID (restingOrders (C.buys.elements st.levels)) orderID
  | _ => false

def Thread.holds (symbol orderID : String) : Thread C → Bool
  | .submit _ (.returned _) => false
  | .submit order _ => order.symbol = symbol && order.orderID = orderID
  | .worker symbol' phase => symbol' = symbol && phase.holds orderID

def OrderBook.holds (ob : OrderBook C) (orderID : String) : Bool :=
  someWithID (restingOrders (C.buys.elements ob.buys)) orderID ||
    someWithID (restingOrders (C.sells.elements ob.sells)) orderID

def EngineState.holds (s : EngineState C) (symbol orderID : String) : Bool :=
  s.threads.any (Thread.holds symbol orderID) ||
    (s.shared.orderQueues symbol).any (fun msg => msg.orderID = orderID) ||
    (s.shared.orderBooks symbol).any fun ob => ob.holds orderID

/-! ## Other orders -/

def Cancellation.OtherMsg (c : Cancellation) (msg : SubmitOrderMsg) : Prop :=
  ¬ (msg.symbol = c.symbol ∧ msg.orderID = c.orderID)

instance (c : Cancellation) : DecidablePred c.OtherMsg := fun _ => inferInstanceAs (Decidable (¬ _))

def Cancellation.OtherOrder (c : Cancellation) (symbol : String) (x : OrderBookEntry) : Prop :=
  symbol = c.symbol → x.orderID ≠ c.orderID

def Cancellation.NoLaterTrade (c : Cancellation) (trades : List TradeExecutedEvent) : Prop :=
  ∀ t ∈ trades.drop c.tradesBefore, t.symbolStr = c.symbol →
    t.makerOrderID ≠ c.orderID ∧ t.takerOrderID ≠ c.orderID

/-- When a cancel completes the engine does not hold the order, and later no message brings its id
for its symbol, nor is the id generated for one. -/
def Settled (x : Exchange C) : ExchangeAction → Prop
  | .engine action => ∀ c ∈ x.cancelled, Feeds c.OtherMsg x.engine action
  | .cancelOrder _ => True
  | .advance k input => ∀ req order, x.requests[k]? = some (.found req order) → input.err = none →
      x.engine.holds order.symbol req.orderID = false

section

variable {c : Cancellation} {s s' : EngineState C}

theorem otherOrder_stable (c : Cancellation) (symbol : String) : Stable (c.OtherOrder symbol) :=
  fun _ _ _ h => h

theorem ne_of_someWithID {orders : List OrderBookEntry} {orderID : String}
    (h : someWithID orders orderID = false) : ∀ x ∈ orders, x.orderID ≠ orderID := by
  intro x hx
  have := any_eq_false.mp h x hx
  simpa using this

-- Entries of other symbols satisfy the predicate for free.
theorem LevelsOk.other {Q : OrderBookEntry → Prop} {symbol : String}
    {levels : List (Int × List OrderBookEntry)} (h : LevelsOk (fun x => Q x ∧ True) levels)
    (hid : symbol = c.symbol → someWithID (restingOrders levels) c.orderID = false) :
    LevelsOk (fun x => Q x ∧ c.OtherOrder symbol x) levels :=
  h.imp fun x hx hQ => ⟨hQ.1, fun hsymbol => ne_of_someWithID (hid hsymbol) x hx⟩

theorem Thread.carries_other {th : Thread C} (h : th.Carries fun _ => True)
    (hid : th.holds c.symbol c.orderID = false) : th.Carries c.OtherMsg := by
  cases th with
  | submit order phase =>
    cases phase with
    | returned err => trivial
    | _ =>
      intro hsame
      simp [holds, hsame] at hid
  | worker symbol phase =>
    cases phase with
    | took msg =>
      refine ⟨fun hsame => ?_, h.2⟩
      simp [holds, WorkerPhase.holds, ← h.2, hsame] at hid
    | _ => trivial

theorem Thread.matchesOk_other {th : Thread C} (h : th.MatchesOk fun _ _ => True)
    (hid : th.holds c.symbol c.orderID = false) : th.MatchesOk c.OtherOrder := by
  cases th with
  | submit order phase => trivial
  | worker symbol phase =>
    have hphase : symbol = c.symbol → phase.holds c.orderID = false := by
      intro hsymbol
      simpa [holds, hsymbol] using hid
    cases phase with
    | buying | selling =>
      simp only [WorkerPhase.holds, Bool.or_eq_false_iff, decide_eq_false_iff_not] at hphase
      exact ⟨⟨h.1.1, fun hs => (hphase hs).1⟩, h.2.other fun hs => (hphase hs).2⟩
    | _ => trivial

structure Gone (c : Cancellation) (s : EngineState C) : Prop where
  queues : QueuesOk c.OtherMsg s
  books : BooksOk c.OtherOrder s
  before : c.tradesBefore ≤ s.shared.trades.length
  trades : c.NoLaterTrade s.shared.trades

-- From here on the invariant speaks about the cancelled order only through what enters.
theorem gone_of_not_holds (hqueues : QueuesOk (fun _ => True) s)
    (hbooks : BooksOk (fun _ _ => True) s) (hid : s.holds c.symbol c.orderID = false)
    (hnow : c.tradesBefore = s.shared.trades.length) : Gone c s := by
  simp only [EngineState.holds, Bool.or_eq_false_iff, any_eq_false, decide_eq_true_eq] at hid
  obtain ⟨⟨hthreads, hqueue⟩, hbook⟩ := hid
  have hthread : ∀ th ∈ s.threads, th.holds c.symbol c.orderID = false :=
    fun th hth => by simpa using hthreads th hth
  refine ⟨⟨fun th hth => carries_other (hqueues.threads th hth) (hthread th hth),
    fun symbol msg hmsg => ?_⟩, ⟨fun th hth => matchesOk_other (hbooks.threads th hth)
      (hthread th hth), fun symbol ob hob => ?_⟩, le_of_eq hnow, ?_⟩
  · -- only the symbol's own queue can hold the message
    have hsymbol := (hqueues.queues symbol msg hmsg).2
    refine ⟨fun hsame => ?_, hsymbol⟩
    rw [← hsymbol, hsame.1] at hmsg
    exact hqueue msg hmsg hsame.2
  · obtain ⟨hsymbol, hok⟩ := hbooks.books symbol ob hob
    have hfree : symbol = c.symbol → ob.holds c.orderID = false := by
      rintro rfl
      simpa [hob] using hbook
    simp only [OrderBook.holds, Bool.or_eq_false_iff] at hfree
    exact ⟨hsymbol, hok.buys.other fun hs => (hfree hs).1, hok.sells.other fun hs => (hfree hs).2⟩
  · -- there is no trade since now
    intro t ht
    rw [hnow, drop_length] at ht
    cases ht

theorem Gone.step {action : EngineAction} (h : Gone c s) (hfeeds : Feeds c.OtherMsg s action)
    (hstep : s.step cfg action = some s') : Gone c s' := by
  -- what a worker hands to the book is a message the queue let through
  have hadmits : Admits cfg c.OtherOrder s action := by
    cases action with
    | submitOrder order => trivial
    | advance k input =>
      intro symbol msg hk hsymbol hid
      obtain ⟨hother, hmsg⟩ := h.queues.threads _ (mem_of_getElem? hk)
      exact hother ⟨hmsg.trans hsymbol, hid⟩
  obtain ⟨hbooks, new, hnew, hok⟩ := h.books.step (otherOrder_stable c) hadmits hstep
  refine ⟨h.queues.step hfeeds hstep, hbooks, ?_, fun t ht hsymbol => ?_⟩
  · rw [hnew, length_append]
    exact Nat.le_add_right_of_le h.before
  · rw [hnew, drop_append_of_le_length h.before] at ht
    rcases mem_append.mp ht with ht | ht
    · exact h.trades t ht hsymbol
    · -- a new trade is between two other orders
      obtain ⟨taker, maker, htaker, hmaker, hsides⟩ := hok t ht
      have hof : t.takerOrderID = taker.orderID ∧ t.makerOrderID = maker.orderID := by
        rcases hsides with ⟨hof, -⟩ | ⟨hof, -⟩
        · exact ⟨hof.takerOrderID, hof.makerOrderID⟩
        · exact ⟨hof.takerOrderID, hof.makerOrderID⟩
      rw [hof.1, hof.2]
      exact ⟨hmaker hsymbol, htaker hsymbol⟩

end

/-! ## Runs -/

section

variable {x x' : Exchange C} {action : ExchangeAction}

structure CancelsHold (x : Exchange C) : Prop where
  queues : QueuesOk (fun _ => True) x.engine
  books : BooksOk (fun _ _ => True) x.engine
  gone : ∀ c ∈ x.cancelled, Gone c x.engine

theorem cancelsHold_new (sequencer : Sequencer) : CancelsHold (newExchange C sequencer) :=
  ⟨queuesOk_new sequencer, booksOk_new sequencer, nofun⟩

theorem CancelsHold.step (h : CancelsHold x) (hsettled : Settled x action)
    (hstep : x.step cfg action = some x') : CancelsHold x' := by
  rcases Exchange.step_cases hstep with ⟨a, rfl, hengine, hcancelled⟩ | ⟨hengine, hcancelled⟩ |
    ⟨k, input, req, order, rfl, herr, hk, hengine, hcancelled⟩
  · have hfeeds : Feeds (fun _ => True) x.engine a := by
      cases a with
      | submitOrder order => exact fun _ => trivial
      | advance k input => exact fun _ _ => trivial
    have hadmits : Admits cfg (fun _ _ => True) x.engine a := by
      cases a with
      | submitOrder order => trivial
      | advance k input => exact fun _ _ _ => trivial
    refine ⟨h.queues.step hfeeds hengine,
      (h.books.step (fun _ _ _ _ _ => trivial) hadmits hengine).1, fun c hc => ?_⟩
    rw [hcancelled] at hc
    exact (h.gone c hc).step (hsettled c hc) hengine
  · -- this step of the handler leaves the engine alone
    refine ⟨hengine ▸ h.queues, hengine ▸ h.books, ?_⟩
    rw [hengine, hcancelled]
    exact h.gone
  · refine ⟨hengine ▸ h.queues, hengine ▸ h.books, ?_⟩
    rw [hengine, hcancelled]
    exact Run.forall_mem_concat h.gone
      (gone_of_not_holds h.queues h.books (hsettled req order hk herr) rfl)

/-- In every run whose steps are settled, an order whose cancel was answered with success has not
traded for its symbol since. -/
theorem cancelled_order_not_traded (cfg : EngineConfig) (sequencer : Sequencer) (x : Exchange C)
    (hrun : Run.Reaches (Exchange.step cfg) Settled (newExchange C sequencer) x) :
    ∀ c ∈ x.cancelled, c.NoLaterTrade x.engine.shared.trades := by
  have h : CancelsHold x := hrun.invariant (cancelsHold_new sequencer)
    fun _ _ _ hx hsettled hstep => hx.step hsettled hstep
  exact fun c hc => (h.gone c hc).trades

end

/-! ## Two runs -/

def Thread.drawing : Thread C → Option SubmitOrderMsg
  | .submit order .drawOrderID => some order
  | _ => none

theorem Thread.drawing_eq_some {th : Thread C} {order : SubmitOrderMsg} :
    th.drawing = some order ↔ th = .submit order .drawOrderID := by
  unfold drawing
  split
  next => simp
  next hne =>
    exact ⟨fun h => absurd h (Option.some_ne_none order).symm, fun h => absurd h (hne order)⟩

instance (A : SubmitOrderMsg → Prop) [DecidablePred A] (s : EngineState C) :
    (action : EngineAction) → Decidable (Feeds A s action)
  | .submitOrder order => inferInstanceAs (Decidable (¬ order.Missing → A order))
  | .advance k input =>
    decidable_of_iff (∀ order ∈ s.threads[k]?.bind drawing,
      A { order with orderID := generatedID input.now s.shared.sequencer.nextGlobalSeq.1 })
      (by simp [Feeds, Option.bind_eq_some_iff, drawing_eq_some])

def CancelCall.pending : CancelCall → Option (CancelOrderRequest × OrderRow)
  | .found req order => some (req, order)
  | _ => none

theorem CancelCall.pending_eq_some {call : CancelCall} {p : CancelOrderRequest × OrderRow} :
    call.pending = some p ↔ call = .found p.1 p.2 := by
  cases call with
  | found req order => simp [CancelCall.pending, Prod.ext_iff]
  | _ => simp [CancelCall.pending]

instance (x : Exchange C) : (action : ExchangeAction) → Decidable (Settled x action)
  | .engine action => inferInstanceAs (Decidable (∀ c ∈ x.cancelled, Feeds c.OtherMsg _ action))
  | .cancelOrder _ => inferInstanceAs (Decidable True)
  | .advance k input =>
    decidable_of_iff (∀ p ∈ x.requests[k]?.bind CancelCall.pending, input.err = none →
      x.engine.holds p.2.symbol p.1.orderID = false)
      (by simp [Settled, Option.bind_eq_some_iff, CancelCall.pending_eq_some, Prod.forall])

def cancelNow (request : Nat) (orderID userID : String) : List ExchangeAction :=
  [.cancelOrder (some ⟨orderID, userID⟩), .advance request ⟨0, none⟩, .advance request ⟨0, none⟩]

/-- The sell order `a` fills the buy order `b` and is cancelled; `c` and `d` trade after that. -/
def filledThenCancelled : List ExchangeAction :=
  (oneSubmission ++
    .submitOrder ⟨"b", "BTC", "buy", "1", "1", "u2"⟩ :: advanceBy 2 6 ++
    advanceBy 1 8).map .engine ++
  cancelNow 0 "a" "u1" ++
  (.submitOrder ⟨"c", "BTC", "sell", "1", "1", "u3"⟩ :: advanceBy 3 6 ++ advanceBy 1 3 ++
    .submitOrder ⟨"d", "BTC", "buy", "1", "1", "u4"⟩ :: advanceBy 4 6 ++ advanceBy 1 3).map .engine

theorem filledThenCancelled_not_traded : ∃ x, Run.Reaches (Exchange.step oneProcessor) Settled
        (newExchange sortedContainers newSequencer) x ∧
      x.cancelled = [⟨"a", "BTC", 1⟩] ∧ x.engine.shared.trades.length = 2 ∧
      Cancellation.NoLaterTrade ⟨"a", "BTC", 1⟩ x.engine.shared.trades := by
  refine Run.exists_reaches filledThenCancelled
    (P := fun x => x.cancelled = [⟨"a", "BTC", 1⟩] ∧ x.engine.shared.trades.length = 2)
    (by decide +kernel) fun x hx ⟨hcancelled, htrades⟩ => ?_
  refine ⟨hcancelled, htrades, cancelled_order_not_traded oneProcessor newSequencer x hx _ ?_⟩
  rw [hcancelled]
  exact mem_singleton.mpr rfl

def restingThenCancelled : List ExchangeAction :=
  oneSubmission.map .engine ++ cancelNow 0 "a" "u1" ++
  (.submitOrder ⟨"b", "BTC", "buy", "1", "1", "u2"⟩ :: advanceBy 2 6 ++ advanceBy 1 3).map .engine

/-- The cancel is answered with success before there is any trade, and the order trades. -/
theorem restingThenCancelled_traded :
    ∃ x, Run.Reaches (Exchange.step oneProcessor) (fun _ _ => True)
        (newExchange sortedContainers newSequencer) x ∧
      x.requests = [.answered (cancelSucceeded "a")] ∧ x.cancelled = [⟨"a", "BTC", 0⟩] ∧
      ¬ Cancellation.NoLaterTrade ⟨"a", "BTC", 0⟩ x.engine.shared.trades := by
  refine Run.exists_reaches restingThenCancelled
    (P := fun x => x.requests = [.answered (cancelSucceeded "a")] ∧
      x.cancelled = [⟨"a", "BTC", 0⟩] ∧
      ∃ t ∈ x.engine.shared.trades, t.symbolStr = "BTC" ∧ t.makerOrderID = "a")
    (by decide +kernel) fun x _ ⟨hrequests, hcancelled, t, ht, hsymbol, hmaker⟩ => ?_
  exact ⟨hrequests, hcancelled, fun h => (h t ht hsymbol).1 hmaker⟩

end CexHertz
