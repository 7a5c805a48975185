import CexHertz.Service.MatchReplay
import CexHertz.Service.SubmissionOrder
import CexHertz.Service.Workers

/-!
# Matching and the recorded sequence

What the worker of a symbol has done so far is what a fresh book does with the events of the orders
handed over, in that order. When submissions are queued in turn this is the order of their numbers,
and the log alone determines the trades.
-/

namespace CexHertz

open Function List TradeExecutedEvent Submissions

variable {buyBefore sellBefore : Int → Int → Prop} [DecidableRel buyBefore]
  [DecidableRel sellBefore] {C : Containers buyBefore sellBefore} {cfg : EngineConfig}
  {sh sh' : Shared C} {input : StepInput} {th th' : Thread C} {started : List (Thread C)}
  {q : Submissions} {k : Nat}

/-! ## One symbol -/

def symbolTrades (trades : List TradeExecutedEvent) (symbol : String) :
    List (String × String × Int × Int) :=
  (trades.filter fun t => t.symbolStr = symbol).map key

structure SymbolView (C : Containers buyBefore sellBefore) where
  book : Option (OrderBook C)
  queue : List SubmitOrderMsg
  trades : List (String × String × Int × Int)
  queued : List (SubmitOrderMsg × OrderSubmittedEvent)
  handed : List OrderSubmittedEvent

def viewOf (sh : Shared C) (q : Submissions) (symbol : String) : SymbolView C where
  book := sh.orderBooks symbol
  queue := sh.orderQueues symbol
  trades := symbolTrades sh.trades symbol
  queued := q.queued symbol
  handed := q.handed symbol

variable (stamp : OrderSubmittedEvent → Nat → Stamp) (symbol : String)

def AtRest (v : SymbolView C) : Prop :=
  ∃ ob, v.book = some ob ∧ SameBook ob (replay C symbol stamp v.handed).1 ∧
    v.trades = (replay C symbol stamp v.handed).2.map key

/-- The last order handed over is matched, so far as in the replay: it takes from `side`, and
`rest` is what it leaves alone. -/
def Matching [DecidableRel before] {L : Levels before} (stops : Int → Int → Bool)
    (takerSide : String) (side : OrderBook C → L.Carrier)
    (rest : OrderBook C → List (Int × List OrderBookEntry)) (v : SymbolView C)
    (order : OrderBookEntry) (st : MatchState L) : Prop :=
  ∃ init e ob, v.handed = init ++ [e] ∧ order.timeless = (replayEntry e).timeless ∧
    v.book = some ob ∧ ob.symbol = symbol ∧
    timelessLevels (rest ob) = timelessLevels (rest (replay C symbol stamp init).1) ∧
    Midway (matchLoop L (stops (replayEntry e).price) symbol takerSide (replayEntry e) (stamp e))
      (matchStart L (side (replay C symbol stamp init).1) (replayEntry e)) st ∧
    v.trades = (replay C symbol stamp init).2.map key ++ st.events.map key

def Buying (v : SymbolView C) (order : OrderBookEntry) (st : MatchState C.sells) : Prop :=
  order.side = "buy" ∧ Matching stamp symbol (fun limit p => decide (limit < p)) "buy"
    OrderBook.sells (fun ob => C.buys.elements ob.buys) v order st

def Selling (v : SymbolView C) (order : OrderBookEntry) (st : MatchState C.buys) : Prop :=
  order.side ≠ "buy" ∧ Matching stamp symbol (fun limit p => decide (limit > p)) "sell"
    OrderBook.buys (fun ob => C.sells.elements ob.sells) v order st

def Follows (v : SymbolView C) : WorkerPhase C → Prop
  | .took msg => v.queued.map Prod.fst = msg :: v.queue ∧ AtRest stamp symbol v
  | .buying order st => v.queued.map Prod.fst = v.queue ∧ Buying stamp symbol v order st
  | .selling order st => v.queued.map Prod.fst = v.queue ∧ Selling stamp symbol v order st
  | .idle => v.queued.map Prod.fst = v.queue ∧ AtRest stamp symbol v
  | .publish _ _ => v.queued.map Prod.fst = v.queue ∧ AtRest stamp symbol v

variable {stamp symbol}
variable {v : SymbolView C} {new : List TradeExecutedEvent}
  {order : OrderBookEntry} {now : Int} {e : OrderSubmittedEvent} {ob : OrderBook C}

theorem AtRest.trades (h : AtRest stamp symbol v) :
    v.trades = (replay C symbol stamp v.handed).2.map key := by
  obtain ⟨ob, -, -, htrades⟩ := h
  exact htrades

theorem symbolTrades_append (trades new : List TradeExecutedEvent) (symbol : String) :
    symbolTrades (trades ++ new) symbol =
      symbolTrades trades symbol ++ symbolTrades new symbol := by
  unfold symbolTrades
  rw [filter_append, map_append]

theorem symbolTrades_own (h : ∀ t ∈ new, t.symbolStr = symbol) :
    symbolTrades new symbol = new.map key := by
  unfold symbolTrades
  rw [filter_eq_self.mpr fun t ht => decide_eq_true (h t ht)]

theorem symbolTrades_other (h : ∀ t ∈ new, t.symbolStr ≠ symbol) :
    symbolTrades new symbol = [] := by
  unfold symbolTrades
  rw [filter_eq_nil_iff.mpr fun t ht => by rw [decide_eq_true_eq]; exact h t ht]
  rfl

theorem matchOrder_symbol (ob : OrderBook C) (order : OrderBookEntry) (stamp : Nat → Stamp) :
    (matchOrder ob order stamp).book.symbol = ob.symbol := by
  unfold matchOrder
  split
  · exact recordOrder_symbol _ _ _ _
  · exact recordOrder_symbol _ _ _ _

theorem replay_symbol (events : List OrderSubmittedEvent) :
    (replay C symbol stamp events).1.symbol = symbol := by
  induction events using List.reverseRecOn with
  | nil => rfl
  | append_singleton events e ih =>
    rw [replay_append]
    exact (matchOrder_symbol _ _ _).trans ih

theorem matchTurn_cases [DecidableRel before] {L : Levels before} {stops : Int → Bool}
    {symbol takerSide : String} {st st' : MatchState L}
    (h : matchTurn sh (fun stamp => (matchLoop L stops symbol takerSide order stamp).body) now st =
      some (sh', st')) :
    ∃ stamp new, matchBody L stops symbol takerSide order stamp st = some st' ∧
      st'.events = st.events ++ new ∧ sh'.trades = sh.trades ++ new ∧
      ∀ t ∈ new, t.symbolStr = symbol := by
  obtain ⟨hturn, -⟩ := matchTurn_eq_some h
  obtain ⟨_, _, _, _, new, -, hnew, hmaker⟩ := matchBody_tradeOf hturn
  exact ⟨_, new, hturn, hnew, matchTurn_trades h hnew, fun t ht => (hmaker t ht).symbolStr⟩

theorem matchTurn_none [DecidableRel before] {L : Levels before}
    {body : (Nat → Stamp) → MatchState L → Option (MatchState L)} {st : MatchState L}
    (h : matchTurn sh body now st = none) : ∃ stamp, body stamp st = none := by
  exact ⟨_, Option.map_eq_none_iff.mp h⟩

/-! ## The worker's own moves -/

theorem MadeFrom.timeless {msg : SubmitOrderMsg} (h : MadeFrom cfg msg e)
    (hsymbol : msg.symbol = symbol) (now : Int) (seq : Nat) :
    (bookEntry cfg symbol msg now seq).timeless = (replayEntry e).timeless := by
  obtain ⟨seq', now', rfl⟩ := h
  subst hsymbol
  rfl

-- The order that was taken is the first of those that wait.
theorem viewOf_hand (sh : Shared C) {msg : SubmitOrderMsg} {queue : List SubmitOrderMsg}
    (h : (q.queued symbol).map Prod.fst = msg :: queue) :
    ∃ e rest, (msg, e) ∈ q.queued symbol ∧ rest.map Prod.fst = queue ∧
      viewOf sh (q.hand symbol) symbol =
        { viewOf sh q symbol with queued := rest, handed := q.handed symbol ++ [e] } := by
  cases hq : q.queued symbol with
  | nil => rw [hq] at h; cases h
  | cons p rest =>
    rw [hq, map_cons, List.cons.injEq] at h
    obtain ⟨rfl, hrest⟩ := h
    refine ⟨p.2, rest, mem_cons_self, hrest, ?_⟩
    unfold viewOf hand
    dsimp only
    rw [update_self, update_self, hq]
    rfl

theorem AtRest.begin (h : AtRest stamp symbol v) (hob : v.book = some ob)
    (horder : order.timeless = (replayEntry e).timeless) (queued : List _) :
    (order.side = "buy" → Buying stamp symbol { v with
      queued := queued, handed := v.handed ++ [e] } order (matchStart C.sells ob.sells order)) ∧
    (order.side ≠ "buy" → Selling stamp symbol { v with
      queued := queued, handed := v.handed ++ [e] } order (matchStart C.buys ob.buys order)) := by
  obtain ⟨ob', hob', hsame, htrades⟩ := h
  obtain rfl := Option.some.inj (hob.symm.trans hob')
  have hqty : order.quantity = (replayEntry e).quantity := congrArg (·.quantity) horder
  have hsymbol : ob.symbol = symbol := hsame.symbol.trans (replay_symbol _)
  constructor
  · intro hside
    exact ⟨hside, v.handed, e, ob, rfl, horder, hob, hsymbol, hsame.buys,
      ⟨_, .refl, hsame.sells, hqty, rfl⟩, htrades.trans (append_nil _).symm⟩
  · intro hside
    exact ⟨hside, v.handed, e, ob, rfl, horder, hob, hsymbol, hsame.sells,
      ⟨_, .refl, hsame.buys, hqty, rfl⟩, htrades.trans (append_nil _).symm⟩

theorem AtRest.of_matched {ob' : OrderBook C} {init : List OrderSubmittedEvent}
    {events events' : List TradeExecutedEvent} {left left' : Int} (hhanded : v.handed = init ++ [e])
    (hmatch : matchOrder (replay C symbol stamp init).1 (replayEntry e) (stamp e) =
      recordOrder ob' (replayEntry e) events' left')
    (hbook : SameBook ob ob') (horder : order.timeless = (replayEntry e).timeless)
    (hleft : left = left')
    (hevents : events.map key = events'.map key)
    (htrades : v.trades = (replay C symbol stamp init).2.map key ++
      events.map key) :
    AtRest stamp symbol { v with book := some (recordOrder ob order events left).book } := by
  refine ⟨_, rfl, ?_, ?_⟩
  · rw [hhanded, replay_append]
    dsimp only
    rw [hmatch, hleft]
    exact hbook.recordOrder horder [] [] _
  · rw [hhanded, replay_append]
    dsimp only
    rw [hmatch, htrades, hevents]
    exact (map_append ..).symm

theorem Buying.done {st : MatchState C.sells} (h : Buying stamp symbol v order st)
    (hob : v.book = some ob)
    (hstop : ∃ stamp, (matchBuyLoop C ob.symbol order stamp).body st = none) :
    AtRest stamp symbol { v with book := some (recordOrder { ob with sells := st.levels } order
      st.events st.remainingQty).book } := by
  obtain ⟨hside, init, e, ob', hhanded, horder, hob', rfl, hbuys, hmidway, htrades⟩ := h
  obtain rfl := Option.some.inj (hob.symm.trans hob')
  obtain ⟨stamp', hstop⟩ := hstop
  have hprice : order.price = (replayEntry e).price := congrArg (·.price) horder
  have hside' : (replayEntry e).side = "buy" := (congrArg (·.side) horder).symm.trans hside
  have hsame := Midway.stop hmidway (by rw [hprice]) horder hstop
  have hmatch : matchOrder (replay C ob.symbol stamp init).1 (replayEntry e) (stamp e) = _ :=
    if_pos hside'
  dsimp only [matchBuyOrder] at hmatch
  rw [replay_symbol] at hmatch
  exact .of_matched hhanded hmatch ⟨rfl, hbuys, hsame.levels⟩ horder hsame.remainingQty
    hsame.events htrades

theorem Selling.done {st : MatchState C.buys} (h : Selling stamp symbol v order st)
    (hob : v.book = some ob)
    (hstop : ∃ stamp, (matchSellLoop C ob.symbol order stamp).body st = none) :
    AtRest stamp symbol { v with book := some (recordOrder { ob with buys := st.levels } order
      st.events st.remainingQty).book } := by
  obtain ⟨hside, init, e, ob', hhanded, horder, hob', rfl, hsells, hmidway, htrades⟩ := h
  obtain rfl := Option.some.inj (hob.symm.trans hob')
  obtain ⟨stamp', hstop⟩ := hstop
  have hprice : order.price = (replayEntry e).price := congrArg (·.price) horder
  have hside' : (replayEntry e).side ≠ "buy" := fun heq =>
    hside ((congrArg (·.side) horder).trans heq)
  have hsame := Midway.stop hmidway (by rw [hprice]) horder hstop
  have hmatch : matchOrder (replay C ob.symbol stamp init).1 (replayEntry e) (stamp e) = _ :=
    if_neg hside'
  dsimp only [matchSellOrder] at hmatch
  rw [replay_symbol] at hmatch
  exact .of_matched hhanded hmatch ⟨rfl, hsame.levels, hsells⟩ horder hsame.remainingQty
    hsame.events htrades

section

variable [DecidableRel before] {L : Levels before} {stops : Int → Int → Bool} {takerSide : String}
  {side : OrderBook C → L.Carrier} {rest : OrderBook C → List (Int × List OrderBookEntry)}
  {st st' : MatchState L} {ob' : OrderBook C}

theorem Matching.turn (h : Matching stamp symbol stops takerSide side rest v order st)
    (hob : v.book = some ob) (hnew : st'.events = st.events ++ new)
    (hturn : ∃ stamp, matchBody L (stops order.price) ob.symbol takerSide order stamp st = some st')
    (hsymbol : ob'.symbol = ob.symbol) (hrest : rest ob' = rest ob) :
    Matching stamp symbol stops takerSide side rest { v with
      book := some ob'
      trades := v.trades ++ new.map key } order st' := by
  obtain ⟨init, e, ob₁, hhanded, horder, hob₁, rfl, hothers, hmidway, htrades⟩ := h
  obtain rfl := Option.some.inj (hob.symm.trans hob₁)
  obtain ⟨stamp', hturn⟩ := hturn
  have hprice : order.price = (replayEntry e).price := congrArg (·.price) horder
  refine ⟨init, e, ob', hhanded, horder, rfl, hsymbol, hrest ▸ hothers,
    hmidway.turn (congrArg stops hprice) horder hturn, ?_⟩
  rw [htrades, hnew, map_append, append_assoc]

end

theorem AtRest.nextTrade (h : AtRest stamp symbol v) (hqueue : v.queued.map Prod.fst = v.queue)
    (trades : List TradeExecutedEvent) :
    Follows stamp symbol v (nextTrade trades) := by
  cases trades with
  | nil | cons => exact ⟨hqueue, h⟩

-- What a book that is stored does to the view of its symbol.
theorem viewOf_storeBook (ob : OrderBook C) :
    viewOf (storeBook sh symbol ob) q symbol = { viewOf sh q symbol with book := some ob } := by
  unfold viewOf
  rw [storeBook_self]
  rfl

-- What a turn does to it.
theorem viewOf_turn [DecidableRel before] {L : Levels before}
    {body : (Nat → Stamp) → MatchState L → Option (MatchState L)} {st st' : MatchState L}
    (ob : OrderBook C) (hturn : matchTurn sh body now st = some (sh', st'))
    (htrades : sh'.trades = sh.trades ++ new) (hsymbol : ∀ t ∈ new, t.symbolStr = symbol) :
    viewOf (storeBook sh' symbol ob) q symbol = { viewOf sh q symbol with
      book := some ob
      trades := (viewOf sh q symbol).trades ++ new.map key } := by
  rw [viewOf_storeBook]
  unfold viewOf
  rw [htrades, symbolTrades_append, symbolTrades_own hsymbol, (matchTurn_frame hturn).1]

theorem Follows.move {phase phase' : WorkerPhase C} {started : List (Thread C)}
    (h : Follows stamp symbol (viewOf sh q symbol) phase)
    (hpairs : ∀ p ∈ q.queued symbol, MadeFrom cfg p.1 p.2 ∧ p.1.symbol = symbol)
    (hsymbol : ∀ ob, sh.orderBooks symbol = some ob → ob.symbol = symbol)
    (hstep : (Thread.worker symbol phase).step cfg sh input =
      some (sh', .worker symbol phase', started)) :
    Follows stamp symbol (viewOf sh'
      (q.watch sh sh' k (.worker symbol phase) (.worker symbol phase')) symbol) phase' := by
  cases Thread.step_move hstep with
  | take hqueue =>
    obtain ⟨hsame, hrest⟩ := h
    refine ⟨?_, hrest⟩
    change _ = _ :: update sh.orderQueues symbol _ symbol
    rwa [update_self, ← hqueue]
  | @beginBuy _ msg ob order hob horder hside | @beginSell _ msg ob order hob horder hside =>
    obtain ⟨hsame, hrest⟩ := h
    obtain ⟨e, rest, hmem, hqueue, hview⟩ := viewOf_hand (sh.handed msg order) hsame
    obtain ⟨hmade, hmsg⟩ := hpairs (msg, e) hmem
    change Follows stamp symbol (viewOf (sh.handed msg order) (q.hand symbol) symbol) _
    rw [hview]
    have hbegin := hrest.begin hob (horder ▸ hmade.timeless hmsg _ _) rest
    first
    | exact ⟨hqueue, hbegin.1 hside⟩
    | exact ⟨hqueue, hbegin.2 hside⟩
  | @buyTurn _ ob order st st' sh₁ hob hturn | @sellTurn _ ob order st st' sh₁ hob hturn =>
    obtain ⟨hsame, hside, hmatching⟩ := h
    obtain ⟨stamp', new, hbody, hnew, htrades, hown⟩ := matchTurn_cases hturn
    rw [hsymbol ob hob] at hown
    rw [viewOf_turn _ hturn htrades hown]
    exact ⟨hsame, hside, hmatching.turn hob hnew ⟨stamp', hbody⟩ rfl rfl⟩
  | @buyDone _ ob order st result hob hresult | @sellDone _ ob order st result hob hresult =>
    obtain ⟨hsame, hmatching⟩ := h
    obtain ⟨hbuy, hsell⟩ := Thread.step_done hob hstep
    subst hresult
    rw [viewOf_storeBook]
    first
    | exact (hmatching.done hob (matchTurn_none (hbuy _ _ rfl))).nextTrade hsame _
    | exact (hmatching.done hob (matchTurn_none (hsell _ _ rfl))).nextTrade hsame _
  | workerPublish _ rest hcall =>
    -- publishing is not about the books
    have hmarket := Publish.step_sameMarket hcall
    unfold viewOf
    rwa [hmarket.orderBooks, hmarket.orderQueues, hmarket.trades]
  | published _ err rest =>
    obtain ⟨hsame, hrest⟩ := h
    exact hrest.nextTrade hsame _

/-! ## The moves of others -/

theorem ThreadMove.viewOf_other (h : ThreadMove cfg sh input th sh' th' started)
    (hworker : th.workerSymbol ≠ some symbol)
    (hqueue : ∀ order, th = .submit order .enqueue → order.symbol ≠ symbol)
    (hsymbols : ∀ symbol ob, sh.orderBooks symbol = some ob → ob.symbol = symbol) :
    viewOf sh' (q.watch sh sh' k th th') symbol = viewOf sh q symbol := by
  have hne : ∀ {symbol' : String}, some symbol' ≠ some symbol → symbol ≠ symbol' :=
    fun hneq heq => hneq (congrArg some heq.symm)
  have hhand : ∀ {symbol'} (sh : Shared C), symbol ≠ symbol' →
      viewOf sh (q.hand symbol') symbol = viewOf sh q symbol := by
    intro symbol' sh hother
    unfold viewOf hand
    dsimp only
    rw [update_of_ne hother, update_of_ne hother]
  have hstore : ∀ {symbol'} (sh : Shared C) (ob : OrderBook C), symbol ≠ symbol' →
      viewOf (storeBook sh symbol' ob) q symbol = viewOf sh q symbol := by
    intro symbol' sh ob hother
    unfold viewOf
    rw [storeBook_other _ _ hother]
    rfl
  cases h with
  | submitPublish order hcall | workerPublish symbol' rest hcall =>
    have hmarket := Publish.step_sameMarket hcall
    change viewOf sh' q symbol = _
    unfold viewOf
    rw [hmarket.orderBooks, hmarket.orderQueues, hmarket.trades]
  | enqueue order =>
    have hother := (hqueue order rfl).symm
    change viewOf _ (q.enqueue order (q.drawn k)) symbol = _
    unfold viewOf Submissions.enqueue
    dsimp only
    rw [enqueueOrder_orderQueues, (enqueueOrder_history sh order).2,
      update_of_ne hother, update_of_ne hother]
    rcases enqueueOrder_cases sh order with ⟨-, hbooks, -⟩ | ⟨-, hbooks, -⟩
    · rw [hbooks]
    · rw [hbooks, update_of_ne hother]
  | take hmsg =>
    change viewOf _ q symbol = _
    unfold viewOf
    dsimp only
    rw [update_of_ne (hne hworker)]
  | beginBuy | beginSell => exact hhand _ (hne hworker)
  | @buyTurn symbol' ob order st st' sh₁ hob hturn
  | @sellTurn symbol' ob order st st' sh₁ hob hturn =>
    obtain ⟨_, new, -, -, htrades, hown⟩ := matchTurn_cases hturn
    refine (hstore _ _ (hne hworker)).trans ?_
    have hnone : ∀ t ∈ new, t.symbolStr ≠ symbol := fun t ht heq =>
      hne hworker (heq.symm.trans ((hown t ht).trans (hsymbols symbol' ob hob)))
    unfold viewOf
    rw [(matchTurn_frame hturn).1, (matchTurn_frame hturn).2.1, htrades, symbolTrades_append,
      symbolTrades_other hnone, append_nil]
  | buyDone | sellDone => exact hstore _ _ (hne hworker)
  | _ => rfl

theorem viewOf_enqueue (sh : Shared C) (q : Submissions) (order : SubmitOrderMsg)
    (e : OrderSubmittedEvent) :
    viewOf (enqueueOrder sh order).1 (q.enqueue order (some e)) order.symbol =
      { viewOf sh q order.symbol with
        book := some ((sh.orderBooks order.symbol).getD (newOrderBook C order.symbol))
        queue := sh.orderQueues order.symbol ++ [order]
        queued := q.queued order.symbol ++ [(order, e)] } := by
  unfold viewOf enqueue
  dsimp only
  rw [enqueueOrder_orderQueues, (enqueueOrder_history sh order).2, update_self, update_self]
  rcases enqueueOrder_cases sh order with ⟨hsome, hbooks, -⟩ | ⟨hnone, hbooks, -⟩
  · rw [hbooks]
    cases hob : sh.orderBooks order.symbol with
    | none => exact absurd hob hsome
    | some ob => rfl
  · rw [hbooks, update_self, hnone]
    rfl

theorem Follows.enqueue {phase : WorkerPhase C} (h : Follows stamp symbol v phase)
    (order : SubmitOrderMsg) (e : OrderSubmittedEvent) :
    Follows stamp symbol { v with
      queue := v.queue ++ [order], queued := v.queued ++ [(order, e)] } phase := by
  have happend : ∀ {queue : List SubmitOrderMsg}, v.queued.map Prod.fst = queue →
      (v.queued ++ [(order, e)]).map Prod.fst = queue ++ [order] := by
    intro queue hqueue
    rw [map_append, hqueue]
    rfl
  cases phase with
  | took | idle | buying | selling | publish => exact ⟨happend h.1, h.2⟩

/-! ## In every run -/

/-- Every worker is where the replay of the orders handed to it is, and there is nothing of a symbol
without a worker. -/
structure Replaying (cfg : EngineConfig) (stamp : OrderSubmittedEvent → Nat → Stamp)
    (s : Watched C Submissions) : Prop where
  submissions : SubmissionsOk cfg s
  workers : WorkersOk s.engine
  books : BooksOk (fun _ _ => True) s.engine
  follows : ∀ symbol phase, .worker symbol phase ∈ s.engine.threads →
    Follows stamp symbol (viewOf s.engine.shared s.seen symbol) phase
  fresh : ∀ symbol, s.engine.shared.orderBooks symbol = none →
    viewOf s.engine.shared s.seen symbol = ⟨none, [], [], [], []⟩

theorem replaying_new (stamp : OrderSubmittedEvent → Nat → Stamp) (sequencer : Sequencer) :
    Replaying cfg stamp (newSubmissions C sequencer) where
  submissions := submissionsOk_new sequencer
  workers := workersOk_new sequencer
  books := booksOk_new sequencer
  follows := nofun
  fresh := fun _ _ => rfl

section

variable {s s' : Watched C Submissions} {action : EngineAction} {phase : WorkerPhase C}

theorem ThreadMove.enqueued {order : SubmitOrderMsg}
    (h : ThreadMove cfg sh input (.submit order .enqueue) sh' th' started) :
    sh' = (enqueueOrder sh order).1 ∧ started = (enqueueOrder sh order).2 := by
  cases h
  exact ⟨rfl, rfl⟩

theorem Replaying.viewOf_enqueue (h : Replaying cfg stamp s) (sh' : Shared C) (th' : Thread C)
    {order : SubmitOrderMsg} (hk : s.engine.threads[k]? = some (.submit order .enqueue)) :
    ∃ e, viewOf (enqueueOrder s.engine.shared order).1
        (s.seen.watch s.engine.shared sh' k (.submit order .enqueue) th') order.symbol =
      { viewOf s.engine.shared s.seen order.symbol with
        book := some ((s.engine.shared.orderBooks order.symbol).getD
          (newOrderBook C order.symbol))
        queue := s.engine.shared.orderQueues order.symbol ++ [order]
        queued := s.seen.queued order.symbol ++ [(order, e)] } := by
  obtain ⟨e, hdrawn, -⟩ := h.submissions.submits k _ hk
  refine ⟨e, ?_⟩
  rw [← CexHertz.viewOf_enqueue, ← hdrawn]
  rfl

-- A symbol that has a worker has a book.
theorem Replaying.book_of_worker (h : Replaying cfg stamp s)
    (hmem : .worker symbol phase ∈ s.engine.threads) :
    ∃ ob, s.engine.shared.orderBooks symbol = some ob :=
  Option.ne_none_iff_exists'.mp
    ((h.workers.books symbol).mpr (mem_filterMap.mpr ⟨_, hmem, rfl⟩))

theorem Replaying.others (h : Replaying cfg stamp s) (hk : s.engine.threads[k]? = some th)
    (hmove : ThreadMove cfg s.engine.shared input th sh' th' started)
    (hother : th.workerSymbol ≠ some symbol) (hmem : .worker symbol phase ∈ s.engine.threads) :
    Follows stamp symbol
      (viewOf sh' (s.seen.watch s.engine.shared sh' k th th') symbol) phase := by
  have hfollows := h.follows symbol phase hmem
  by_cases hqueue : ∃ order, th = .submit order .enqueue ∧ order.symbol = symbol
  · obtain ⟨order, rfl, rfl⟩ := hqueue
    obtain ⟨e, hview⟩ := h.viewOf_enqueue sh' th' hk
    obtain ⟨ob, hob⟩ := h.book_of_worker hmem
    rw [hob, Option.getD_some, ← hob] at hview
    rw [hmove.enqueued.1] at hview ⊢
    rw [hview]
    exact hfollows.enqueue order e
  · rwa [hmove.viewOf_other hother (fun order hth heq => hqueue ⟨order, hth, heq⟩)
      fun symbol ob hob => (h.books.books symbol ob hob).1]

theorem Replaying.newWorker (h : Replaying cfg stamp s) (hk : s.engine.threads[k]? = some th)
    (hmove : ThreadMove cfg s.engine.shared input th sh' th' started)
    (hmem : .worker symbol phase ∈ started) :
    Follows stamp symbol
      (viewOf sh' (s.seen.watch s.engine.shared sh' k th th') symbol) phase := by
  by_cases hqueue : ∃ order, th = .submit order .enqueue
  · obtain ⟨order, rfl⟩ := hqueue
    obtain ⟨e, hview⟩ := h.viewOf_enqueue sh' th' hk
    obtain ⟨rfl, rfl⟩ := hmove.enqueued
    rcases enqueueOrder_cases s.engine.shared order with ⟨-, -, hnil⟩ | ⟨hnone, -, hone⟩
    · rw [hnil] at hmem
      cases hmem
    · rw [hone] at hmem
      cases mem_singleton.mp hmem
      have hfresh := h.fresh order.symbol hnone
      have hqueue' : s.engine.shared.orderQueues order.symbol = [] :=
        congrArg SymbolView.queue hfresh
      have hqueued : s.seen.queued order.symbol = [] := congrArg SymbolView.queued hfresh
      rw [hview, hfresh, hqueue', hqueued, hnone]
      exact ⟨rfl, _, rfl, SameBook.refl _, rfl⟩
  · cases hmove with
    | enqueue order => exact absurd ⟨order, rfl⟩ hqueue
    | _ => cases hmem

theorem Replaying.step (h : Replaying cfg stamp s) (hturn : InTurn s action)
    (hstep : s.step watch cfg action = some s') : Replaying cfg stamp s' := by
  have hengine := Watched.engine_step hstep
  have hsubmissions := h.submissions.step hturn hstep
  have hworkers := h.workers.step hengine
  have hbooks := h.books.step_any hengine
  have hsymbols := fun symbol ob hob => (h.books.books symbol ob hob).1
  rcases Watched.step_cases hstep with ⟨order, rfl, rfl⟩ |
    ⟨k, input, th, sh, th', started, rfl, hk, hth, rfl⟩
  · refine ⟨hsubmissions, hworkers, hbooks, fun symbol phase hmem => ?_, h.fresh⟩
    rcases mem_append.mp hmem with hmem | hmem
    · exact h.follows symbol phase hmem
    · have hworker := submitOrder_workerSymbol (C := C) order
      rw [← mem_singleton.mp hmem] at hworker
      cases hworker
  · have hmove := Thread.step_move hth
    obtain ⟨pre, post, hpool, hset⟩ := Run.set_split hk
    refine ⟨hsubmissions, hworkers, hbooks, fun symbol phase hmem => ?_, fun symbol hnone => ?_⟩
    · have hothers : ∀ t, t = .worker symbol phase → t ∈ pre ∨ t ∈ post →
          Follows stamp symbol (viewOf sh (s.seen.watch s.engine.shared sh k th th') symbol)
            phase := by
        rintro t rfl ht
        refine h.others hk hmove (fun hsame => h.workers.other hpool hsame _ ht rfl) ?_
        rw [hpool, mem_append, mem_cons]
        exact ht.imp_right .inr
      rcases mem_append.mp hmem with hmem | hmem
      · rw [hset, mem_append, mem_cons] at hmem
        rcases hmem with hmem | rfl | hmem
        · exact hothers _ rfl (.inl hmem)
        · -- the worker itself
          have hsame := hmove.workerSymbol
          cases th with
          | submit order phase₀ => cases hsame
          | worker symbol₀ phase₀ =>
            cases hsame
            exact (h.follows symbol phase₀ (mem_of_getElem? hk)).move
              (h.submissions.pairs symbol) (hsymbols symbol) hth
        · exact hothers _ rfl (.inr hmem)
      · exact h.newWorker hk hmove hmem
    · -- the books there were are still there
      have hnone' : s.engine.shared.orderBooks symbol = none := by
        by_contra hsome
        rcases hmove.books with ⟨-, hkept⟩ | ⟨new, -, -, hkept⟩
        · exact (hkept symbol).mpr hsome hnone
        · exact (hkept symbol).mpr (.inl hsome) hnone
      have hworker : th.workerSymbol ≠ some symbol := fun hsame =>
        (h.workers.books symbol).mpr
          (mem_filterMap.mpr ⟨th, mem_of_getElem? hk, hsame⟩) hnone'
      refine (hmove.viewOf_other hworker ?_ hsymbols).trans (h.fresh symbol hnone')
      -- an order for the symbol would have opened its book
      rintro order rfl rfl
      obtain ⟨e, hview⟩ := h.viewOf_enqueue sh th' hk
      have hbook := congrArg SymbolView.book hview
      rw [hmove.enqueued.1] at hnone
      exact nomatch hnone.symm.trans hbook

/-! ## The theorem -/

/-- The submitted orders of the symbol that are in the log, in the order of their numbers. -/
def submittedInSequence (log : List MatchingEngineEvent) (symbol : String) :
    List OrderSubmittedEvent :=
  Tickets.inSequence OrderSubmittedEvent.seq
    ((loggedSubmissions log).filter fun e => e.symbolStr = symbol)

/-- No call on the symbol is on its way, and no order of the symbol waits or is being matched. -/
def Drained (s : Watched C Submissions) (symbol : String) : Prop :=
  (∀ j < s.engine.threads.length, ∀ u ∈ wayOf s j, u.1.symbolStr ≠ symbol) ∧
  s.seen.queued symbol = [] ∧ ∀ th ∈ s.engine.threads, th.matching ≠ some symbol

-- What has been handed over is then what the log holds.
theorem Replaying.handed_eq (h : Replaying cfg stamp s) (hdrained : Drained s symbol) :
    s.seen.handed symbol = submittedInSequence s.engine.shared.log symbol := by
  have hqueue : s.seen.enqueued symbol = s.seen.handed symbol := by
    rw [enqueued, hdrained.2.1, map_nil, append_nil]
  rw [← hqueue]
  refine h.submissions.tickets.queue_eq fun j e b hj => ?_
  exact hdrained.1 j (lt_length_of_wayOf hj) (e, b) hj

theorem Replaying.trades_eq (h : Replaying cfg stamp s) (hdrained : Drained s symbol) :
    symbolTrades s.engine.shared.trades symbol =
      (replay C symbol stamp (s.seen.handed symbol)).2.map key := by
  cases hob : s.engine.shared.orderBooks symbol with
  | none =>
    have hview := h.fresh symbol hob
    have htrades : symbolTrades s.engine.shared.trades symbol = [] :=
      congrArg SymbolView.trades hview
    have hhanded : s.seen.handed symbol = [] := congrArg SymbolView.handed hview
    rw [htrades, hhanded]
    rfl
  | some ob =>
    have hmem := (h.workers.books symbol).mp (by rw [hob]; nofun)
    obtain ⟨th, hth, hworker⟩ := mem_filterMap.mp hmem
    cases th with
    | submit order phase => cases hworker
    | worker symbol' phase =>
      cases hworker
      have hfollows := h.follows symbol phase hth
      have hidle := hdrained.2.2 _ hth
      cases phase with
      | buying | selling => exact absurd rfl hidle
      | idle | took | publish => exact hfollows.2.trades

end

/-- In every run in which calls queue their orders in turn and no processor fails on a submission:
the worker of a symbol hands orders to the book in increasing order of the numbers of their
`OrderSubmittedEvent`s, and once nothing of the symbol is on its way, replaying the submitted orders
of the log in sequence order through a fresh book gives the same trades. -/
theorem matching_follows_recorded_sequence (cfg : EngineConfig) (sequencer : Sequencer)
    (stamp : OrderSubmittedEvent → Nat → Stamp) (s : Watched C Submissions)
    (hrun : Run.Reaches (Watched.step watch cfg) InTurn (newSubmissions C sequencer) s)
    (symbol : String) :
    ((s.seen.handed symbol).Pairwise fun a b => a.seq < b.seq) ∧
    (Drained s symbol → symbolTrades s.engine.shared.trades symbol =
      (replay C symbol stamp (submittedInSequence s.engine.shared.log symbol)).2.map
        key) := by
  have h : Replaying cfg stamp s := hrun.invariant (replaying_new stamp sequencer)
    fun s a s' h hturn hstep => h.step hturn hstep
  refine ⟨(pairwise_append.mp (h.submissions.tickets.ascending symbol)).1, fun hdrained => ?_⟩
  rw [← h.handed_eq hdrained]
  exact h.trades_eq hdrained

/-! ## Runs -/

instance (s : Watched C Submissions) (symbol : String) : Decidable (Drained s symbol) :=
  inferInstanceAs (Decidable (_ ∧ _ ∧ _))

instance (s : Watched C Submissions) (action : EngineAction) : Decidable (InTurn s action) :=
  match action with
  | .submitOrder _ => isTrue trivial
  | .advance _ _ => inferInstanceAs (Decidable (_ ∧ _ ∧ _))

/-- Two sell orders at one price: both calls have drawn their numbers and published their events,
the second call draws while the first is on its way. -/
def twoOnTheirWay : List EngineAction :=
  [.submitOrder ⟨"a", "BTC", "sell", "1", "1", "u1"⟩,
   .submitOrder ⟨"b", "BTC", "sell", "1", "1", "u2"⟩] ++ advanceBy 0 5 ++ advanceBy 1 5

def thenBuy : List EngineAction :=
  advanceBy 2 6 ++ .submitOrder ⟨"c", "BTC", "buy", "1", "1", "u3"⟩ :: advanceBy 3 6 ++
  advanceBy 2 8

theorem queued_in_turn_replayed : ∃ s, Run.Reaches (Watched.step watch oneProcessor) InTurn
        (newSubmissions sortedContainers newSequencer) s ∧
      ((s.seen.handed "BTC").Pairwise fun a b => a.seq < b.seq) ∧
      symbolTrades s.engine.shared.trades "BTC" = [("a", "c", 100000000, 100000000)] ∧
      (replay sortedContainers "BTC" (fun _ => noStamp)
        (submittedInSequence s.engine.shared.log "BTC")).2.map key =
          [("a", "c", 100000000, 100000000)] := by
  refine Run.exists_reaches (twoOnTheirWay ++ advanceBy 0 1 ++ advanceBy 1 1 ++ thenBuy)
    (P := fun s => Drained s "BTC" ∧
      symbolTrades s.engine.shared.trades "BTC" = [("a", "c", 100000000, 100000000)])
    (by decide +kernel) fun s hs ⟨hdrained, htrades⟩ => ?_
  obtain ⟨hascending, hreplay⟩ := matching_follows_recorded_sequence oneProcessor newSequencer
    (fun _ => noStamp) s hs "BTC"
  exact ⟨hascending, htrades, (hreplay hdrained).symm.trans htrades⟩

/-- The second call puts its order into the queue first: the buy order takes that one, and the log
says it should have been the other. -/
theorem queued_out_of_turn_not_replayed :
    ∃ s, Run.Reaches (Watched.step watch oneProcessor) (fun _ _ => True)
        (newSubmissions sortedContainers newSequencer) s ∧
      Drained s "BTC" ∧ (¬ (s.seen.handed "BTC").Pairwise fun a b => a.seq < b.seq) ∧
      symbolTrades s.engine.shared.trades "BTC" = [("b", "c", 100000000, 100000000)] ∧
      (replay sortedContainers "BTC" (fun _ => noStamp)
        (submittedInSequence s.engine.shared.log "BTC")).2.map key =
          [("a", "c", 100000000, 100000000)] := by
  refine Run.exists_reaches (twoOnTheirWay ++ advanceBy 1 1 ++ advanceBy 0 1 ++ thenBuy)
    (P := fun s => Drained s "BTC" ∧ (¬ (s.seen.handed "BTC").Pairwise fun a b => a.seq < b.seq) ∧
      symbolTrades s.engine.shared.trades "BTC" = [("b", "c", 100000000, 100000000)] ∧
      (((loggedSubmissions s.engine.shared.log).filter fun e =>
        e.symbolStr = "BTC").Pairwise fun a b => a.seq ≤ b.seq) ∧
      (replay sortedContainers "BTC" (fun _ => noStamp) ((loggedSubmissions
        s.engine.shared.log).filter fun e => e.symbolStr = "BTC")).2.map key =
          [("a", "c", 100000000, 100000000)]) (by decide +kernel)
    fun s _ ⟨hdrained, horder, htrades, hsorted, hreplay⟩ => ?_
  -- the log itself is in sequence
  have hlog := Tickets.inSequence_of_ascending hsorted
  exact ⟨hdrained, horder, htrades, by rw [submittedInSequence, hlog]; exact hreplay⟩

end CexHertz
