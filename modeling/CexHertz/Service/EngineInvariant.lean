import CexHertz.Service.BookInvariant
import CexHertz.Service.EngineMoves

/-!
# Messages and resting orders in every state of the engine

A message stays in its call, in its symbol's queue or with its symbol's worker; the order it becomes
stays in the match under way or in the book. `QueuesOk A` and `BooksOk P` carry properties of
messages and of orders along these ways, and every new trade is between two orders that have them.
-/

namespace CexHertz

open List Function

variable {buyBefore sellBefore : Int → Int → Prop} [DecidableRel buyBefore]
  [DecidableRel sellBefore] {C : Containers buyBefore sellBefore} {cfg : EngineConfig}
  {s s' : EngineState C} {sh sh' : Shared C} {input : StepInput} {action : EngineAction}

/-! ## What the steps leave alone -/

structure SameMarket (sh sh' : Shared C) : Prop where
  orderQueues : sh'.orderQueues = sh.orderQueues
  orderBooks : sh'.orderBooks = sh.orderBooks
  matched : sh'.matched = sh.matched
  trades : sh'.trades = sh.trades

-- Publishing is about the log and the processors.
theorem Publish.step_sameMarket {call call' : Publish}
    (h : call.step cfg sh input = some (sh', call')) : SameMarket sh sh' := by
  cases call with
  | append event =>
    rw [Publish.step] at h
    split at h
    · cases h
      split <;> exact ⟨rfl, rfl, rfl, rfl⟩
    · cases h
      split <;> exact ⟨rfl, rfl, rfl, rfl⟩
  | dispatch event pending err =>
    rw [Publish.step] at h
    split at h
    · cases h
      exact ⟨rfl, rfl, rfl, rfl⟩
    · split at h
      · cases h
        exact ⟨rfl, rfl, rfl, rfl⟩
      · cases h
  | finished err => cases h

theorem enqueueOrder_orderQueues (sh : Shared C) (order : SubmitOrderMsg) :
    (enqueueOrder sh order).1.orderQueues =
      update sh.orderQueues order.symbol (sh.orderQueues order.symbol ++ [order]) := by
  unfold enqueueOrder
  dsimp only
  split <;> rfl

theorem enqueueOrder_orderBooks (sh : Shared C) (order : SubmitOrderMsg) {symbol : String}
    {ob : OrderBook C} (h : (enqueueOrder sh order).1.orderBooks symbol = some ob) :
    sh.orderBooks symbol = some ob ∨ ob = newOrderBook C symbol := by
  unfold enqueueOrder at h
  dsimp only at h
  split at h
  · exact .inl h
  · dsimp only at h
    rcases eq_or_ne symbol order.symbol with rfl | hne
    · rw [update_self, Option.some.injEq] at h
      exact .inr h.symm
    · rw [update_of_ne hne] at h
      exact .inl h

theorem enqueueOrder_history (sh : Shared C) (order : SubmitOrderMsg) :
    (enqueueOrder sh order).1.matched = sh.matched ∧
    (enqueueOrder sh order).1.trades = sh.trades := by
  unfold enqueueOrder
  dsimp only
  split <;> exact ⟨rfl, rfl⟩

/-! ## Messages -/

def Thread.Carries (A : SubmitOrderMsg → Prop) : Thread C → Prop
  | .submit _ (.returned _) => True
  | .submit order _ => A order
  | .worker symbol (.took msg) => A msg ∧ msg.symbol = symbol
  | .worker _ _ => True

structure QueuesOk (A : SubmitOrderMsg → Prop) (s : EngineState C) : Prop where
  threads : ∀ th ∈ s.threads, th.Carries A
  queues : ∀ symbol, ∀ msg ∈ s.shared.orderQueues symbol, A msg ∧ msg.symbol = symbol

def Feeds (A : SubmitOrderMsg → Prop) (s : EngineState C) : EngineAction → Prop
  | .submitOrder order => ¬ order.Missing → A order
  | .advance k input => ∀ order, s.threads[k]? = some (.submit order .drawOrderID) →
      A { order with orderID := generatedID input.now s.shared.sequencer.nextGlobalSeq.1 }

section

variable {A : SubmitOrderMsg → Prop}

theorem queuesOk_new (sequencer : Sequencer) : QueuesOk A (newMatchEngine C sequencer) :=
  ⟨fun _ h => absurd h not_mem_nil, fun _ _ h => absurd h not_mem_nil⟩

theorem submitOrder_carries {order : SubmitOrderMsg} (h : ¬ order.Missing → A order) :
    (submitOrder order : Thread C).Carries A :=
  submitOrder_cases order (fun _ => trivial) (fun hfields _ => h hfields) fun hfields _ => h hfields

theorem nextTrade_carries (symbol : String) (trades : List TradeExecutedEvent) :
    (Thread.worker symbol (nextTrade trades : WorkerPhase C)).Carries A := by
  cases trades with
  | nil | cons => trivial

-- The only message that changes is the one that gets its id.
theorem ThreadMove.carries {th th' : Thread C} {started : List (Thread C)}
    (h : ThreadMove cfg sh input th sh' th' started) (hth : th.Carries A)
    (hqueues : ∀ symbol, ∀ msg ∈ sh.orderQueues symbol, A msg ∧ msg.symbol = symbol)
    (hdraw : ∀ order, th = .submit order .drawOrderID →
      A { order with orderID := generatedID input.now sh.sequencer.nextGlobalSeq.1 }) :
    th'.Carries A := by
  cases h with
  | drawOrderID order => exact hdraw order rfl
  | drawSeq | submitPublish | accepted => exact hth
  | @take symbol msg rest hqueue => exact hqueues symbol msg (hqueue ▸ mem_cons_self)
  | buyDone | sellDone | published => exact nextTrade_carries _ _
  | _ => trivial

-- A queue grows by the caller's message and shrinks by the worker's.
theorem ThreadMove.queues {th th' : Thread C} {started : List (Thread C)}
    (h : ThreadMove cfg sh input th sh' th' started) (hth : th.Carries A)
    (hqueues : ∀ symbol, ∀ msg ∈ sh.orderQueues symbol, A msg ∧ msg.symbol = symbol) :
    ∀ symbol, ∀ msg ∈ sh'.orderQueues symbol, A msg ∧ msg.symbol = symbol := by
  cases h with
  | submitPublish order hcall | workerPublish symbol rest hcall =>
    rwa [(Publish.step_sameMarket hcall).orderQueues]
  | enqueue order =>
    rw [enqueueOrder_orderQueues]
    intro symbol msg hmsg
    rcases eq_or_ne symbol order.symbol with rfl | hne
    · -- the symbol's queue is the old one and the new message
      rw [update_self] at hmsg
      rcases mem_append.mp hmsg with hmsg | hmsg
      · exact hqueues _ msg hmsg
      · rw [mem_singleton.mp hmsg]
        exact ⟨hth, rfl⟩
    · rw [update_of_ne hne] at hmsg
      exact hqueues symbol msg hmsg
  | @take symbol msg rest hqueue =>
    intro symbol' msg' hmsg
    dsimp only at hmsg
    rcases eq_or_ne symbol' symbol with rfl | hne
    · rw [update_self] at hmsg
      exact hqueues _ msg' (hqueue ▸ mem_cons_of_mem _ hmsg)
    · rw [update_of_ne hne] at hmsg
      exact hqueues symbol' msg' hmsg
  | buyTurn _ hturn | sellTurn _ hturn =>
    rwa [storeBook, (matchTurn_frame hturn).1]
  | _ => exact hqueues

theorem QueuesOk.step (h : QueuesOk A s) (hfeeds : Feeds A s action)
    (hstep : s.step cfg action = some s') : QueuesOk A s' := by
  rcases EngineState.step_cases hstep with ⟨order, rfl, rfl⟩ |
    ⟨k, input, th, sh, th', started, rfl, hk, hmove, rfl⟩
  · exact ⟨Run.forall_mem_concat h.threads (submitOrder_carries hfeeds), h.queues⟩
  · have hth := h.threads th (mem_of_getElem? hk)
    have hcarries := hmove.carries hth h.queues fun order heq => hfeeds order (heq ▸ hk)
    exact ⟨hmove.forall_threads k h.threads hcarries fun _ => trivial, hmove.queues hth h.queues⟩

end

/-! ## Orders -/

structure TradeOf (symbol takerSide : String) (taker maker : OrderBookEntry)
    (t : TradeExecutedEvent) : Prop where
  symbolStr : t.symbolStr = symbol
  takerSide : t.takerSide = takerSide
  takerOrderID : t.takerOrderID = taker.orderID
  makerOrderID : t.makerOrderID = maker.orderID

def TradeOk (P : String → OrderBookEntry → Prop) (t : TradeExecutedEvent) : Prop :=
  ∃ taker maker, P t.symbolStr taker ∧ P t.symbolStr maker ∧
    (TradeOf t.symbolStr "buy" taker maker t ∧ taker.side = "buy" ∧ maker.side ≠ "buy" ∨
     TradeOf t.symbolStr "sell" taker maker t ∧ taker.side ≠ "buy" ∧ maker.side = "buy")

def Thread.MatchesOk (P : String → OrderBookEntry → Prop) : Thread C → Prop
  | .worker symbol (.buying order st) => (order.side = "buy" ∧ P symbol order) ∧
      LevelsOk (fun x => x.side ≠ "buy" ∧ P symbol x) (C.sells.elements st.levels)
  | .worker symbol (.selling order st) => (order.side ≠ "buy" ∧ P symbol order) ∧
      LevelsOk (fun x => x.side = "buy" ∧ P symbol x) (C.buys.elements st.levels)
  | _ => True

structure BooksOk (P : String → OrderBookEntry → Prop) (s : EngineState C) : Prop where
  threads : ∀ th ∈ s.threads, th.MatchesOk P
  books : ∀ symbol ob, s.shared.orderBooks symbol = some ob → ob.symbol = symbol ∧ ob.Ok (P symbol)

def Admits (cfg : EngineConfig) (P : String → OrderBookEntry → Prop) (s : EngineState C) :
    EngineAction → Prop
  | .submitOrder _ => True
  | .advance k input => ∀ symbol msg, s.threads[k]? = some (.worker symbol (.took msg)) →
      P symbol (bookEntry cfg symbol msg input.now s.shared.sequencer.nextGlobalSeq.1)

section

variable {P : String → OrderBookEntry → Prop}
variable {symbol takerSide : String}

theorem booksOk_new (sequencer : Sequencer) : BooksOk P (newMatchEngine C sequencer) :=
  ⟨fun _ h => absurd h not_mem_nil, fun _ _ h => nomatch h⟩

theorem submitOrder_matchesOk (order : SubmitOrderMsg) :
    (submitOrder order : Thread C).MatchesOk P :=
  submitOrder_cases order (fun _ => trivial) (fun _ _ => trivial) fun _ _ => trivial

theorem nextTrade_matchesOk (symbol : String) (trades : List TradeExecutedEvent) :
    (Thread.worker symbol (nextTrade trades : WorkerPhase C)).MatchesOk P := by
  cases trades with
  | nil | cons => trivial

theorem matchBody_tradeOf {before : Int → Int → Prop} [DecidableRel before] {L : Levels before}
    {stops : Int → Bool} {order : OrderBookEntry} {stamp : Nat → Stamp} {st st' : MatchState L}
    (h : matchBody L stops symbol takerSide order stamp st = some st') :
    ∃ price maker rest tl new, L.elements st.levels = (price, maker :: rest) :: tl ∧
      st'.events = st.events ++ new ∧ ∀ t ∈ new, TradeOf symbol takerSide order maker t := by
  obtain ⟨price, maker, rest, tl, hel, he | ⟨qty, he⟩⟩ := matchBody_events h
  · exact ⟨price, maker, rest, tl, [], hel, by rw [he, append_nil],
      fun t ht => absurd ht not_mem_nil⟩
  · refine ⟨price, maker, rest, tl, _, hel, he, fun t ht => ?_⟩
    rw [mem_singleton.mp ht]
    exact ⟨rfl, rfl, rfl, rfl⟩

theorem matchTurn_ok {before : Int → Int → Prop} [DecidableRel before] {L : Levels before}
    {stops : Int → Bool} {order : OrderBookEntry} {now : Int} {st st' : MatchState L}
    {Q : OrderBookEntry → Prop} (hQ : Stable Q) (hlevels : LevelsOk Q (L.elements st.levels))
    (h : matchTurn sh (fun stamp => (matchLoop L stops symbol takerSide order stamp).body) now st =
      some (sh', st')) :
    LevelsOk Q (L.elements st'.levels) ∧ ∃ new, sh'.trades = sh.trades ++ new ∧
      ∀ t ∈ new, ∃ maker, Q maker ∧ TradeOf symbol takerSide order maker t := by
  obtain ⟨hturn, -⟩ := matchTurn_eq_some h
  obtain ⟨price, maker, rest, tl, new, hel, hnew, hmaker⟩ := matchBody_tradeOf hturn
  have hheld : Q maker :=
    ((hlevels (price, maker :: rest) (hel ▸ mem_cons_self)).entries maker
      mem_cons_self).holds
  exact ⟨hlevels.turn hQ hturn, new, matchTurn_trades h hnew, fun t ht =>
    ⟨maker, hheld, hmaker t ht⟩⟩

theorem storeBook_orderBooks {symbol' : String} {ob ob' : OrderBook C}
    (h : (storeBook sh symbol ob).orderBooks symbol' = some ob') :
    symbol' = symbol ∧ ob' = ob ∨ sh.orderBooks symbol' = some ob' := by
  rw [storeBook] at h
  dsimp only at h
  rcases eq_or_ne symbol' symbol with rfl | hne
  · rw [update_self, Option.some.injEq] at h
    exact .inl ⟨rfl, h.symm⟩
  · rw [update_of_ne hne] at h
    exact .inr h

-- Trades carry the symbol of the book, which is the symbol it is stored under.
theorem recordOrder_symbol (ob : OrderBook C) (order : OrderBookEntry)
    (events : List TradeExecutedEvent) (qty : Int) :
    (recordOrder ob order events qty).book.symbol = ob.symbol := by
  unfold recordOrder addOrderToBook
  split
  · split <;> rfl
  · rfl

structure MoveOk (P : String → OrderBookEntry → Prop) (sh sh' : Shared C) (th' : Thread C) :
    Prop where
  thread : th'.MatchesOk P
  books : ∀ symbol ob, sh'.orderBooks symbol = some ob → ob.symbol = symbol ∧ ob.Ok (P symbol)
  trades : ∃ new, sh'.trades = sh.trades ++ new ∧ ∀ t ∈ new, TradeOk P t

theorem noTrade (h : sh'.trades = sh.trades) :
    ∃ new, sh'.trades = sh.trades ++ new ∧ ∀ t ∈ new, TradeOk P t :=
  ⟨[], by rw [h, append_nil], fun t ht => absurd ht not_mem_nil⟩

theorem books_storeBook {ob : OrderBook C}
    (hbooks : ∀ symbol ob, sh.orderBooks symbol = some ob → ob.symbol = symbol ∧ ob.Ok (P symbol))
    (hsymbol : ob.symbol = symbol) (hok : ob.Ok (P symbol)) :
    ∀ symbol' ob', (storeBook sh symbol ob).orderBooks symbol' = some ob' →
      ob'.symbol = symbol' ∧ ob'.Ok (P symbol') := by
  intro symbol' ob' hob'
  rcases storeBook_orderBooks hob' with ⟨rfl, rfl⟩ | hob'
  · exact ⟨hsymbol, hok⟩
  · exact hbooks symbol' ob' hob'

theorem TradeOf.tradeOk {taker maker : OrderBookEntry} {t : TradeExecutedEvent}
    (h : TradeOf symbol takerSide taker maker t) (htaker : P symbol taker) (hmaker : P symbol maker)
    (hsides : takerSide = "buy" ∧ taker.side = "buy" ∧ maker.side ≠ "buy" ∨
      takerSide = "sell" ∧ taker.side ≠ "buy" ∧ maker.side = "buy") : TradeOk P t := by
  obtain ⟨rfl, rfl, hts, hms⟩ := h
  rcases hsides with ⟨hside, hsides⟩ | ⟨hside, hsides⟩
  · exact ⟨taker, maker, htaker, hmaker, .inl ⟨⟨rfl, hside, hts, hms⟩, hsides⟩⟩
  · exact ⟨taker, maker, htaker, hmaker, .inr ⟨⟨rfl, hside, hts, hms⟩, hsides⟩⟩

theorem ThreadMove.moveOk (hP : ∀ symbol, Stable (P symbol)) {th th' : Thread C}
    {started : List (Thread C)} (h : ThreadMove cfg sh input th sh' th' started)
    (hth : th.MatchesOk P)
    (hbooks : ∀ symbol ob, sh.orderBooks symbol = some ob → ob.symbol = symbol ∧ ob.Ok (P symbol))
    (hadmits : ∀ symbol msg, th = .worker symbol (.took msg) →
      P symbol (bookEntry cfg symbol msg input.now sh.sequencer.nextGlobalSeq.1)) :
    MoveOk P sh sh' th' := by
  cases h with
  | submitPublish order hcall | workerPublish symbol rest hcall =>
    -- publishing leaves the market alone
    have hsame := Publish.step_sameMarket hcall
    exact ⟨trivial, by rw [hsame.orderBooks]; exact hbooks, noTrade hsame.trades⟩
  | enqueue order =>
    refine ⟨trivial, fun symbol ob hob => ?_, noTrade (enqueueOrder_history sh order).2⟩
    rcases enqueueOrder_orderBooks sh order hob with hob | rfl
    · exact hbooks symbol ob hob
    · exact ⟨rfl, newOrderBook_ok symbol⟩
  | @beginBuy symbol msg ob order hob horder hside
  | @beginSell symbol msg ob order hob horder hside =>
    have hP' := hadmits symbol msg rfl
    rw [← horder] at hP'
    obtain ⟨hbuys, hsells⟩ := (hbooks symbol ob hob).2
    exact ⟨⟨⟨hside, hP'⟩, by assumption⟩, hbooks, noTrade rfl⟩
  | @buyTurn symbol ob order st st' sh₁ hob hturn =>
    obtain ⟨hsymbol, hok⟩ := hbooks symbol ob hob
    obtain ⟨hlevels, new, hnew, hmakers⟩ := matchTurn_ok (hP symbol).sellSide hth.2 hturn
    rw [← (matchTurn_frame hturn).2.1] at hbooks
    refine ⟨⟨hth.1, hlevels⟩, books_storeBook hbooks hsymbol ⟨hok.buys, hlevels⟩, new, hnew,
      fun t ht => ?_⟩
    -- the maker rests among the asks
    obtain ⟨maker, ⟨hmside, hm⟩, ht⟩ := hmakers t ht
    rw [hsymbol] at ht
    exact ht.tradeOk hth.1.2 hm (.inl ⟨rfl, hth.1.1, hmside⟩)
  | @sellTurn symbol ob order st st' sh₁ hob hturn =>
    obtain ⟨hsymbol, hok⟩ := hbooks symbol ob hob
    obtain ⟨hlevels, new, hnew, hmakers⟩ := matchTurn_ok (hP symbol).buySide hth.2 hturn
    rw [← (matchTurn_frame hturn).2.1] at hbooks
    refine ⟨⟨hth.1, hlevels⟩, books_storeBook hbooks hsymbol ⟨hlevels, hok.sells⟩, new, hnew,
      fun t ht => ?_⟩
    -- the maker rests among the bids
    obtain ⟨maker, ⟨hmside, hm⟩, ht⟩ := hmakers t ht
    rw [hsymbol] at ht
    exact ht.tradeOk hth.1.2 hm (.inr ⟨rfl, hth.1.1, hmside⟩)
  | @buyDone symbol ob order st result hob hresult
  | @sellDone symbol ob order st result hob hresult =>
    obtain ⟨hsymbol, hbuys, hsells⟩ := hbooks symbol ob hob
    obtain ⟨⟨-, horder⟩, hlevels⟩ := hth
    subst hresult
    exact ⟨nextTrade_matchesOk _ _, books_storeBook hbooks
      ((recordOrder_symbol _ _ _ _).trans hsymbol)
      (OrderBook.Ok.recordOrder (hP symbol) ⟨by assumption, by assumption⟩ horder), noTrade rfl⟩
  | published symbol err rest => exact ⟨nextTrade_matchesOk _ _, hbooks, noTrade rfl⟩
  | _ => exact ⟨trivial, hbooks, noTrade rfl⟩

/-- A step that hands only orders with the property to the books keeps it there, and trades only
between such orders. -/
theorem BooksOk.step (hP : ∀ symbol, Stable (P symbol)) (h : BooksOk P s)
    (hadmits : Admits cfg P s action) (hstep : s.step cfg action = some s') :
    BooksOk P s' ∧ ∃ new, s'.shared.trades = s.shared.trades ++ new ∧ ∀ t ∈ new, TradeOk P t := by
  rcases EngineState.step_cases hstep with ⟨order, rfl, rfl⟩ |
    ⟨k, input, th, sh, th', started, rfl, hk, hmove, rfl⟩
  · exact ⟨⟨Run.forall_mem_concat h.threads (submitOrder_matchesOk order), h.books⟩, noTrade rfl⟩
  · have hok := hmove.moveOk hP (h.threads th (mem_of_getElem? hk)) h.books
      fun symbol msg heq => hadmits symbol msg (heq ▸ hk)
    exact ⟨⟨hmove.forall_threads k h.threads hok.thread fun _ => trivial, hok.books⟩, hok.trades⟩

theorem BooksOk.step_any (h : BooksOk (fun _ _ => True) s) (hstep : s.step cfg action = some s') :
    BooksOk (fun _ _ => True) s' := by
  refine (h.step (fun _ _ _ _ _ => trivial) ?_ hstep).1
  cases action with
  | submitOrder order => trivial
  | advance k input => exact fun _ _ _ => trivial

end

/-! ## What has been handed to the books -/

theorem ThreadMove.matched_took {symbol : String} {msg : SubmitOrderMsg} {th' : Thread C}
    {started : List (Thread C)}
    (h : ThreadMove cfg sh input (.worker symbol (.took msg)) sh' th' started) :
    sh'.matched = sh.matched ++
      [(msg, bookEntry cfg symbol msg input.now sh.sequencer.nextGlobalSeq.1)] := by
  cases h with
  | beginBuy _ horder _ | beginSell _ horder _ =>
    rw [← horder]
    rfl

theorem ThreadMove.matched {th th' : Thread C} {started : List (Thread C)}
    (h : ThreadMove cfg sh input th sh' th' started) :
    sh'.matched = sh.matched ∨ ∃ symbol msg, th = .worker symbol (.took msg) := by
  cases h with
  | submitPublish order hcall | workerPublish symbol rest hcall =>
    exact .inl (Publish.step_sameMarket hcall).matched
  | enqueue order => exact .inl (enqueueOrder_history sh order).1
  | buyTurn _ hturn | sellTurn _ hturn => exact .inl (matchTurn_frame hturn).2.2
  | @beginBuy symbol msg | @beginSell symbol msg => exact .inr ⟨symbol, msg, rfl⟩
  | _ => exact .inl rfl

theorem EngineState.step_matched (hstep : s.step cfg action = some s') :
    s'.shared.matched = s.shared.matched ∨ ∃ k input symbol msg, action = .advance k input ∧
      s.threads[k]? = some (.worker symbol (.took msg)) ∧
      s'.shared.matched = s.shared.matched ++
        [(msg, bookEntry cfg symbol msg input.now s.shared.sequencer.nextGlobalSeq.1)] := by
  rcases EngineState.step_cases hstep with ⟨order, rfl, rfl⟩ |
    ⟨k, input, th, sh, th', started, rfl, hk, hmove, rfl⟩
  · exact .inl rfl
  · rcases hmove.matched with h | ⟨symbol, msg, rfl⟩
    · exact .inl h
    · exact .inr ⟨k, input, symbol, msg, rfl, hk, hmove.matched_took⟩

theorem EngineState.mem_matched_step (hstep : s.step cfg action = some s')
    {p : SubmitOrderMsg × OrderBookEntry} (hp : p ∈ s.shared.matched) :
    p ∈ s'.shared.matched := by
  rcases EngineState.step_matched hstep with heq | ⟨_, _, _, _, -, -, heq⟩
  · rwa [heq]
  · rw [heq]
    exact mem_append_left _ hp

end CexHertz
