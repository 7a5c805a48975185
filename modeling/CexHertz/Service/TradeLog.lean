import CexHertz.Service.Accounting
import CexHertz.Service.Delivery
import CexHertz.Service.WatchedEngine
import CexHertz.Service.Workers

/-!
# What the log says about the books

`MatchOrder` has changed the book before the first trade goes to the pipeline, and `processOrder`
goes on when the pipeline returns an error. A tally counts what is taken off the resting orders and
which trades are broadcast: a trade whose append fails is in the book and with the subscribers, and
nowhere else.
-/

namespace CexHertz

open List Thread

variable {buyBefore sellBefore : Int → Int → Prop} [DecidableRel buyBefore]
  [DecidableRel sellBefore] {C : Containers buyBefore sellBefore} {cfg : EngineConfig}
  {sh sh' : Shared C} {input : StepInput} {th th' : Thread C} {started : List (Thread C)}
variable {symbol : String} {log : List MatchingEngineEvent} {current : Option TradeExecutedEvent}

/-! ## The tally -/

def Shared.restingQty (sh : Shared C) (symbol id : String) : Int :=
  match sh.orderBooks symbol with
  | none => 0
  | some ob => CexHertz.restingQty ob id

def takenBy (sh sh' : Shared C) (th th' : Thread C) (symbol id : String) : Int :=
  if th.matching = some symbol ∧ th'.matching = some symbol then
    sh.restingQty symbol id - sh'.restingQty symbol id
  else 0

structure Tally where
  taken : String → String → Int
  current : Nat → Option TradeExecutedEvent
  broadcast : List TradeExecutedEvent

def Thread.loopTrade (current : Option TradeExecutedEvent) : Thread C → Option TradeExecutedEvent
  | .worker _ (.publish (.append (.tradeExecuted trade)) _) => some trade
  | _ => current

/-- `broadcastTrade` runs when `ProcessEvent` has returned, whatever it returned. -/
def Thread.broadcasts (current : Option TradeExecutedEvent) : Thread C → List TradeExecutedEvent
  | .worker _ (.publish (.finished _) _) => current.toList
  | _ => []

def Tally.watch (t : Tally) (sh sh' : Shared C) (k : Nat) (th th' : Thread C) : Tally where
  taken := fun symbol id => t.taken symbol id + takenBy sh sh' th th' symbol id
  current := Function.update t.current k (th'.loopTrade (t.current k))
  broadcast := t.broadcast ++ th.broadcasts (t.current k)

def newTally (C : Containers buyBefore sellBefore) (sequencer : Sequencer) : Watched C Tally where
  engine := newMatchEngine C sequencer
  seen := ⟨fun _ _ => 0, fun _ => none, []⟩

variable {s s' : Watched C Tally} {action : EngineAction}

/-! ## Trades in the log and on their way there -/

def MatchingEngineEvent.trade? : MatchingEngineEvent → Option TradeExecutedEvent
  | .tradeExecuted trade => some trade
  | _ => none

def loggedTrades (log : List MatchingEngineEvent) : List TradeExecutedEvent :=
  log.filterMap MatchingEngineEvent.trade?

def makerQty (trades : List TradeExecutedEvent) (symbol id : String) : Int :=
  tradedTotal TradeExecutedEvent.makerOrderID (fun x => x = id)
    (trades.filter fun t => t.symbolStr = symbol)

def Thread.unlogged : Thread C → List TradeExecutedEvent
  | .worker _ (.buying _ st) => st.events
  | .worker _ (.selling _ st) => st.events
  | .worker _ (.publish (.append (.tradeExecuted trade)) rest) => trade :: rest
  | .worker _ (.publish _ rest) => rest
  | _ => []

def HandedOver (s : EngineState C) (symbol : String) : Prop :=
  ∀ th ∈ s.threads, th.workerSymbol = some symbol → th.unlogged = []

def Persisted (s : Watched C Tally) : EngineAction → Prop
  | .submitOrder _ => True
  | .advance k input => ∀ symbol trade rest, s.engine.threads[k]? =
      some (.worker symbol (.publish (.append (.tradeExecuted trade)) rest)) → input.err = none

theorem makerQty_append (trades new : List TradeExecutedEvent) (symbol id : String) :
    makerQty (trades ++ new) symbol id = makerQty trades symbol id + makerQty new symbol id := by
  rw [makerQty, filter_append, tradedTotal_append]
  rfl

theorem makerQty_perm {trades trades' : List TradeExecutedEvent} (h : trades.Perm trades')
    (symbol id : String) : makerQty trades symbol id = makerQty trades' symbol id :=
  (((h.filter _).filter _).map _).sum_eq

-- Trades of other symbols do not count.
theorem makerQty_other {trades : List TradeExecutedEvent} (h : ∀ t ∈ trades, t.symbolStr ≠ symbol)
    (id : String) : makerQty trades symbol id = 0 := by
  have hnil : (trades.filter fun t => t.symbolStr = symbol) = [] := by
    rw [filter_eq_nil_iff]
    exact fun t ht => by rw [decide_eq_true_eq]; exact h t ht
  rw [makerQty, hnil]
  rfl

theorem loggedTrades_append (log : List MatchingEngineEvent) (event : MatchingEngineEvent) :
    loggedTrades (log ++ [event]) = loggedTrades log ++ event.trade?.toList := by
  unfold loggedTrades
  rw [filterMap_append, filterMap_cons, filterMap_nil]
  cases event.trade? with
  | none | some => rfl

theorem mem_loggedTrades {trade : TradeExecutedEvent} :
    trade ∈ loggedTrades log ↔ .tradeExecuted trade ∈ log := by
  unfold loggedTrades
  rw [mem_filterMap]
  constructor
  · rintro ⟨event, hmem, hevent⟩
    cases event with
    | tradeExecuted e =>
      cases hevent
      exact hmem
    | orderSubmitted | orderCancelled => cases hevent
  · exact fun h => ⟨_, h, rfl⟩

def Thread.Publishes (log : List MatchingEngineEvent) (current : Option TradeExecutedEvent) :
    Thread C → Prop
  | .submit _ (.publish (.append event)) => event.trade? = none
  | .worker _ (.publish (.append event) _) => ∃ t, event = .tradeExecuted t ∧ current = some t
  | .worker _ (.publish _ _) => ∃ t, current = some t ∧ t ∈ loggedTrades log
  | _ => True

theorem Thread.Publishes.mono {log' : List MatchingEngineEvent} (h : th.Publishes log current)
    (hlog : loggedTrades log ⊆ loggedTrades log') : th.Publishes log' current := by
  cases th with
  | submit order phase =>
    cases phase with
    | publish call => cases call <;> exact h
    | _ => trivial
  | worker symbol phase =>
    cases phase with
    | publish call rest =>
      cases call with
      | append event => exact h
      | dispatch | finished =>
        obtain ⟨t, ht, hmem⟩ := h
        exact ⟨t, ht, hlog hmem⟩
    | _ => trivial

/-! ## One move -/

theorem matchTurn_trade {before : Int → Int → Prop} [DecidableRel before] {L : Levels before}
    {stops : Int → Bool} {takerSide : String} {order : OrderBookEntry} {now : Int}
    {st st' : MatchState L} {P : OrderBookEntry → Prop}
    (hlevels : LevelsOk P (L.elements st.levels))
    (h : matchTurn sh (fun stamp => (matchLoop L stops symbol takerSide order stamp).body) now st =
      some (sh', st')) :
    ∃ e, sh'.trades = sh.trades ++ [e] ∧ st'.events = st.events ++ [e] ∧ e.symbolStr = symbol ∧
      ∀ ids, openTotal ids (restingOrders (L.elements st.levels)) =
        openTotal ids (restingOrders (L.elements st'.levels)) +
          if ids e.makerOrderID then e.quantity else 0 := by
  obtain ⟨hturn, -⟩ := matchTurn_eq_some h
  obtain ⟨e, hev, hsymbol, -, -, -, -, hopen⟩ := matchBody_trade hlevels hturn
  exact ⟨e, matchTurn_trades h hev, hev, hsymbol, hopen⟩

inductive TradeMove (sh sh' : Shared C) (th th' : Thread C) : Prop
  | quiet : sh'.trades = sh.trades → loggedTrades sh'.log = loggedTrades sh.log →
      th'.unlogged = th.unlogged → (∀ symbol id, takenBy sh sh' th th' symbol id = 0) →
      TradeMove sh sh' th th'
  | made (e : TradeExecutedEvent) : sh'.trades = sh.trades ++ [e] →
      loggedTrades sh'.log = loggedTrades sh.log → th'.unlogged = th.unlogged ++ [e] →
      th.workerSymbol = some e.symbolStr →
      (∀ symbol id, takenBy sh sh' th th' symbol id = makerQty [e] symbol id) →
      TradeMove sh sh' th th'
  | logged (e : TradeExecutedEvent) : sh'.trades = sh.trades →
      loggedTrades sh'.log = loggedTrades sh.log ++ [e] → th.unlogged = e :: th'.unlogged →
      (∀ symbol id, takenBy sh sh' th th' symbol id = 0) → TradeMove sh sh' th th'

theorem nextTrade_unlogged (symbol : String) (trades : List TradeExecutedEvent) :
    (worker symbol (nextTrade trades : WorkerPhase C)).unlogged = trades := by
  cases trades with
  | nil | cons => rfl

theorem nextTrade_matching (symbol : String) (trades : List TradeExecutedEvent) :
    (worker symbol (nextTrade trades : WorkerPhase C)).matching = none := by
  cases trades with
  | nil | cons => rfl

theorem takenBy_of_not_matching (h : th.matching = none ∨ th'.matching = none)
    (symbol id : String) : takenBy sh sh' th th' symbol id = 0 := by
  refine if_neg fun hboth => ?_
  rcases h with h | h
  · rw [h] at hboth
    cases hboth.1
  · rw [h] at hboth
    cases hboth.2

theorem takenBy_turn {ob ob' : OrderBook C} {e : TradeExecutedEvent}
    (hob : sh.orderBooks symbol = some ob) (hth : th.matching = some symbol)
    (hth' : th'.matching = some symbol) (hsymbol : e.symbolStr = symbol)
    (hqty : ∀ id, CexHertz.restingQty ob id = CexHertz.restingQty ob' id +
      if e.makerOrderID = id then e.quantity else 0) :
    ∀ symbol' id, takenBy sh (storeBook sh' symbol ob') th th' symbol' id =
      makerQty [e] symbol' id := by
  intro symbol' id
  rcases eq_or_ne symbol' symbol with rfl | hne
  · have hmaker : makerQty [e] symbol' id = if e.makerOrderID = id then e.quantity else 0 := by
      rw [makerQty, filter_cons_of_pos (by rw [hsymbol]; exact decide_eq_true rfl),
        filter_nil, tradedTotal_singleton]
      simp only [decide_eq_true_eq]
    rw [takenBy, if_pos ⟨hth, hth'⟩, Shared.restingQty, Shared.restingQty, hob, storeBook_self,
      hmaker]
    dsimp only
    rw [hqty id]
    omega
  · rw [takenBy, if_neg, makerQty_other]
    · intro t ht
      rw [mem_singleton.mp ht, hsymbol]
      exact hne.symm
    · rintro ⟨h, -⟩
      rw [hth] at h
      exact hne (Option.some.inj h).symm

theorem ThreadMove.tradeMove {P : String → OrderBookEntry → Prop}
    (h : ThreadMove cfg sh input th sh' th' started) (hbook : th.InBook sh.orderBooks)
    (hmatch : th.MatchesOk P)
    (hsymbols : ∀ symbol ob, sh.orderBooks symbol = some ob → ob.symbol = symbol)
    (hpub : th.Publishes sh.log current) (hpersisted : ∀ symbol trade rest,
      th = .worker symbol (.publish (.append (.tradeExecuted trade)) rest) → input.err = none) :
    TradeMove sh sh' th th' := by
  have hstill : ∀ symbol id, th.matching = none → takenBy sh sh' th th' symbol id = 0 :=
    fun symbol id hnone => takenBy_of_not_matching (.inl hnone) symbol id
  cases h with
  | submitPublish order hcall =>
    have htrades := (Publish.step_sameMarket hcall).trades
    have hzero := fun symbol id => hstill symbol id rfl
    rcases Publish.step_log hcall with ⟨event, pending, rfl, -, hlog, rfl⟩ |
      ⟨event, err, rfl, -, hlog, rfl⟩ | ⟨event, pending, err, rfl, hlog, -⟩
    · -- a submission is no trade
      refine .quiet htrades ?_ rfl hzero
      have hnone : event.trade? = none := hpub
      rw [hlog, loggedTrades_append, hnone, Option.toList_none, append_nil]
    · exact .quiet htrades (by rw [hlog]) rfl hzero
    · exact .quiet htrades (by rw [hlog]) rfl hzero
  | workerPublish symbol rest hcall =>
    have htrades := (Publish.step_sameMarket hcall).trades
    have hzero := fun symbol id => hstill symbol id rfl
    rcases Publish.step_log hcall with ⟨event, pending, rfl, -, hlog, rfl⟩ |
      ⟨event, err, rfl, herr, -, -⟩ | ⟨event, pending, err, rfl, hlog, rfl | ⟨_, _, -, rfl⟩⟩
    · obtain ⟨t, rfl, -⟩ := hpub
      exact .logged t htrades (by rw [hlog, loggedTrades_append]; rfl) rfl hzero
    · obtain ⟨t, rfl, -⟩ := hpub
      rw [hpersisted symbol t rest rfl] at herr
      cases herr
    · exact .quiet htrades (by rw [hlog]) rfl hzero
    · exact .quiet htrades (by rw [hlog]) rfl hzero
  | enqueue order =>
    exact .quiet (enqueueOrder_history sh order).2 (by rw [(enqueueOrder_log sh order).1]) rfl
      fun symbol id => hstill symbol id rfl
  | @buyTurn symbol ob order st st' sh₁ hob hturn
  | @sellTurn symbol ob order st st' sh₁ hob hturn =>
    obtain ⟨e, htrades, hevents, hsymbol, hopen⟩ := matchTurn_trade hmatch.2 hturn
    obtain ⟨ob₁, hob₁, hlevels⟩ := hbook
    obtain rfl := Option.some.inj (hob₁.symm.trans hob)
    rw [hsymbols symbol ob₁ hob] at hsymbol
    refine .made e htrades (by rw [← (matchTurn_log hturn).1]; rfl) hevents
      (congrArg some hsymbol.symm) (takenBy_turn hob rfl rfl hsymbol fun id => ?_)
    have hid := hopen fun x => x = id
    simp only [decide_eq_true_eq] at hid
    unfold restingQty
    dsimp only
    rw [hlevels, hid]
    omega
  | @buyDone symbol ob order st result hob hresult
  | @sellDone symbol ob order st result hob hresult =>
    subst hresult
    refine .quiet rfl rfl ?_ (takenBy_of_not_matching (.inr (nextTrade_matching _ _)))
    rw [nextTrade_unlogged]
    rfl
  | published symbol err rest =>
    exact .quiet rfl rfl (nextTrade_unlogged _ _) fun symbol id => hstill symbol id rfl
  | _ => exact .quiet rfl rfl rfl fun symbol id => hstill symbol id rfl

theorem TradeMove.logged_subset (h : TradeMove sh sh' th th') :
    loggedTrades sh.log ⊆ loggedTrades sh'.log := by
  cases h with
  | quiet _ hlog | made e _ hlog => rw [hlog]; exact List.Subset.refl _
  | logged e _ hlog => rw [hlog]; exact subset_append_left _ _

theorem nextTrade_publishes (symbol : String) (log : List MatchingEngineEvent)
    (current : Option TradeExecutedEvent) (trades : List TradeExecutedEvent) :
    (worker symbol (nextTrade trades : WorkerPhase C)).Publishes log
      ((worker symbol (nextTrade trades : WorkerPhase C)).loopTrade current) := by
  cases trades with
  | nil => trivial
  | cons trade rest => exact ⟨trade, rfl, rfl⟩

theorem ThreadMove.publishes (h : ThreadMove cfg sh input th sh' th' started)
    (hpub : th.Publishes sh.log current) (hpersisted : ∀ symbol trade rest,
      th = .worker symbol (.publish (.append (.tradeExecuted trade)) rest) → input.err = none) :
    th'.Publishes sh'.log (th'.loopTrade current) := by
  cases h with
  | drawSeq order => exact rfl
  | submitPublish order hcall =>
    rcases Publish.step_log hcall with ⟨event, pending, rfl, -, hlog, rfl⟩ |
      ⟨event, err, rfl, -, hlog, rfl⟩ |
      ⟨event, pending, err, rfl, hlog, rfl | ⟨_, _, -, rfl⟩⟩
    · trivial
    · trivial
    · trivial
    · trivial
  | workerPublish symbol rest hcall =>
    rcases Publish.step_log hcall with ⟨event, pending, rfl, -, hlog, rfl⟩ |
      ⟨event, err, rfl, herr, -, -⟩ | ⟨event, pending, err, rfl, hlog, rfl | ⟨_, _, -, rfl⟩⟩
    · obtain ⟨t, rfl, hcurrent⟩ := hpub
      refine ⟨t, hcurrent, ?_⟩
      rw [hlog, loggedTrades_append]
      exact mem_append_right _ (mem_singleton_self _)
    · obtain ⟨t, rfl, -⟩ := hpub
      rw [hpersisted symbol t rest rfl] at herr
      cases herr
    · obtain ⟨t, hcurrent, hmem⟩ := hpub
      exact ⟨t, hcurrent, hlog ▸ hmem⟩
    · obtain ⟨t, hcurrent, hmem⟩ := hpub
      exact ⟨t, hcurrent, hlog ▸ hmem⟩
  | buyDone | sellDone | published => exact nextTrade_publishes _ _ _ _
  | _ => trivial

/-! ## In every run -/

/-- Every trade is in the log or with the worker that made it, and the trades account for what was
taken off the books. -/
structure TallyOk (s : Watched C Tally) : Prop where
  workers : WorkersOk s.engine
  books : BooksOk (fun _ _ => True) s.engine
  taken : ∀ symbol id, s.seen.taken symbol id = makerQty s.engine.shared.trades symbol id
  balance : s.engine.shared.trades.Perm
    (loggedTrades s.engine.shared.log ++ s.engine.threads.flatMap unlogged)
  symbols : ∀ th ∈ s.engine.threads, ∀ t ∈ th.unlogged, th.workerSymbol = some t.symbolStr
  publishes : ∀ k (th : Thread C), s.engine.threads[k]? = some th →
    th.Publishes s.engine.shared.log (s.seen.current k)
  broadcast : s.seen.broadcast ⊆ loggedTrades s.engine.shared.log

theorem tallyOk_new (sequencer : Sequencer) : TallyOk (newTally C sequencer) where
  workers := workersOk_new sequencer
  books := booksOk_new sequencer
  taken := fun _ _ => rfl
  balance := List.Perm.refl _
  symbols := fun _ h => absurd h not_mem_nil
  publishes := fun _ _ h => nomatch h
  broadcast := List.Subset.refl _

theorem submitOrder_unlogged (order : SubmitOrderMsg) :
    (submitOrder order : Thread C).unlogged = [] :=
  submitOrder_cases order (fun _ => rfl) (fun _ _ => rfl) fun _ _ => rfl

theorem submitOrder_publishes (order : SubmitOrderMsg) (log : List MatchingEngineEvent)
    (current : Option TradeExecutedEvent) :
    (submitOrder order : Thread C).Publishes log current :=
  submitOrder_cases order (fun _ => trivial) (fun _ _ => trivial) fun _ _ => trivial

theorem Thread.Publishes.broadcasts (h : th.Publishes log current) :
    th.broadcasts current ⊆ loggedTrades log := by
  intro t ht
  cases th with
  | submit order phase => exact absurd ht not_mem_nil
  | worker symbol phase =>
    cases phase with
    | publish call rest =>
      cases call with
      | finished err =>
        obtain ⟨t', rfl, hmem⟩ := h
        rwa [mem_singleton.mp ht]
      | append | dispatch => exact absurd ht not_mem_nil
    | _ => exact absurd ht not_mem_nil

theorem TradeMove.balance (h : TradeMove sh sh' th th') {others : List TradeExecutedEvent}
    (hbalance : sh.trades.Perm (loggedTrades sh.log ++ (th.unlogged ++ others))) :
    sh'.trades.Perm (loggedTrades sh'.log ++ (th'.unlogged ++ others)) := by
  cases h with
  | quiet htrades hlog hunlogged =>
    rwa [htrades, hlog, hunlogged]
  | made e htrades hlog hunlogged =>
    rw [htrades, hlog, hunlogged, append_assoc]
    refine (hbalance.append_right [e]).trans ?_
    rw [append_assoc, append_assoc]
    have hswap : (others ++ [e]).Perm ([e] ++ others) := perm_append_comm
    exact (hswap.append_left _).append_left _
  | logged e htrades hlog hunlogged =>
    rw [htrades, hlog, append_assoc]
    rwa [hunlogged] at hbalance

theorem TradeMove.taken (h : TradeMove sh sh' th th') (symbol id : String) :
    makerQty sh'.trades symbol id =
      makerQty sh.trades symbol id + takenBy sh sh' th th' symbol id := by
  cases h with
  | quiet htrades _ _ hzero => rw [htrades, hzero, Int.add_zero]
  | made e htrades _ _ _ htaken => rw [htrades, makerQty_append, htaken]
  | logged e htrades _ _ hzero => rw [htrades, hzero, Int.add_zero]

theorem TradeMove.symbols (h : TradeMove sh sh' th th') (hsame : th'.workerSymbol = th.workerSymbol)
    (hsymbols : ∀ t ∈ th.unlogged, th.workerSymbol = some t.symbolStr) :
    ∀ t ∈ th'.unlogged, th'.workerSymbol = some t.symbolStr := by
  intro t ht
  rw [hsame]
  cases h with
  | quiet _ _ hunlogged => exact hsymbols t (hunlogged ▸ ht)
  | made e _ _ hunlogged hsymbol =>
    rw [hunlogged] at ht
    rcases mem_append.mp ht with ht | ht
    · exact hsymbols t ht
    · rwa [mem_singleton.mp ht]
  | logged e _ _ hunlogged => exact hsymbols t (hunlogged ▸ mem_cons_of_mem _ ht)

theorem TallyOk.step (h : TallyOk s) (hpersisted : Persisted s action)
    (hstep : s.step Tally.watch cfg action = some s') : TallyOk s' := by
  have hengine := Watched.engine_step hstep
  have hworkers := h.workers.step hengine
  have hbooks := h.books.step_any hengine
  rcases Watched.step_cases hstep with ⟨order, rfl, rfl⟩ |
    ⟨k, input, th, sh, th', started, rfl, hk, hth', rfl⟩
  · -- a new call has made nothing yet
    refine ⟨hworkers, hbooks, h.taken, ?_, fun th hth => ?_, fun k th hk => ?_, h.broadcast⟩
    · rw [flatMap_append, flatMap_singleton, submitOrder_unlogged, append_nil]
      exact h.balance
    · rcases mem_append.mp hth with hth | hth
      · exact h.symbols th hth
      · rw [mem_singleton.mp hth, submitOrder_unlogged]
        exact fun t ht => absurd ht not_mem_nil
    · rw [List.getElem?_append] at hk
      split at hk
      · exact h.publishes k th hk
      · rw [mem_singleton.mp (mem_of_getElem? hk)]
        exact submitOrder_publishes order _ _
  · have hmove := step_move hth'
    have hth := mem_of_getElem? hk
    have hpub := h.publishes k th hk
    have hnamed : ∀ symbol trade rest,
        th = .worker symbol (.publish (.append (.tradeExecuted trade)) rest) → input.err = none :=
      fun symbol trade rest heq => hpersisted symbol trade rest (heq ▸ hk)
    have htrade := hmove.tradeMove (h.workers.inBook th hth) (h.books.threads th hth)
      (fun symbol ob hob => (h.books.books symbol ob hob).1) hpub hnamed
    have hidle : ∀ t ∈ started, t.unlogged = [] := by
      intro t ht
      obtain ⟨symbol, rfl⟩ := hmove.started_idle t ht
      rfl
    refine ⟨hworkers, hbooks, fun symbol id => ?_, ?_, ?_, ?_, ?_⟩
    · exact (congrArg (· + _) (h.taken symbol id)).trans (htrade.taken symbol id).symm
    · obtain ⟨others, hbefore, hafter⟩ := Run.exists_others (f := unlogged) hk
        (flatMap_eq_nil_iff.mpr hidle)
      refine (htrade.balance (h.balance.trans (hbefore.append_left _))).trans ?_
      exact ((hafter th').append_left _).symm
    · refine Run.forall_mem_set_append k h.symbols
        (htrade.symbols hmove.workerSymbol (h.symbols th hth)) fun t ht => ?_
      rw [hidle t ht]
      exact fun t ht => absurd ht not_mem_nil
    · refine Run.forall_getElem?_set_append hk (fun j t hne hj => ?_) ?_ fun t ht j => ?_
      · -- the loop variables of the others have not moved
        dsimp only [Tally.watch]
        rw [Function.update_of_ne hne]
        exact (h.publishes j t hj).mono htrade.logged_subset
      · dsimp only [Tally.watch]
        rw [Function.update_self]
        exact hmove.publishes hpub hnamed
      · obtain ⟨symbol, rfl⟩ := hmove.started_idle t ht
        trivial
    · exact append_subset.mpr ⟨List.Subset.trans h.broadcast htrade.logged_subset,
        List.Subset.trans (Thread.Publishes.broadcasts hpub) htrade.logged_subset⟩

-- What the trades of a symbol add up to, once they have been handed over, is all in the log.
theorem TallyOk.logged (h : TallyOk s) (hover : HandedOver s.engine symbol) (id : String) :
    makerQty (loggedTrades s.engine.shared.log) symbol id = s.seen.taken symbol id := by
  have hnone : ∀ t ∈ s.engine.threads.flatMap unlogged, t.symbolStr ≠ symbol := by
    intro t ht hsymbol
    obtain ⟨th, hth, hmem⟩ := mem_flatMap.mp ht
    rw [hover th hth ((h.symbols th hth t hmem).trans (congrArg some hsymbol))] at hmem
    exact absurd hmem not_mem_nil
  rw [h.taken, makerQty_perm h.balance, makerQty_append, makerQty_other hnone, Int.add_zero]

/-- In every run in which the log takes every trade it is given, whatever else fails: once a
symbol's worker has no trade left to hand over, the logged trades that name an order as maker add up
to what matching has taken off it, and every trade that was broadcast is in the log. -/
theorem log_records_what_books_did (cfg : EngineConfig) (sequencer : Sequencer)
    (s : Watched C Tally)
    (hrun : Run.Reaches (Watched.step Tally.watch cfg) Persisted (newTally C sequencer) s) :
    (∀ symbol, HandedOver s.engine symbol → ∀ id,
      makerQty (loggedTrades s.engine.shared.log) symbol id = s.seen.taken symbol id) ∧
    ∀ trade ∈ s.seen.broadcast, .tradeExecuted trade ∈ s.engine.shared.log := by
  have hok := hrun.invariant (I := TallyOk) (tallyOk_new sequencer)
    fun s a s' h hallowed hstep => h.step hallowed hstep
  exact ⟨fun symbol hover id => hok.logged hover id,
    fun trade htrade => mem_loggedTrades.mp (hok.broadcast htrade)⟩

/-! ## Runs -/

instance (s : EngineState C) (symbol : String) : Decidable (HandedOver s symbol) :=
  inferInstanceAs (Decidable (∀ _ ∈ _, _))

def Thread.appendsTrade : Thread C → Bool
  | .worker _ (.publish (.append (.tradeExecuted _)) _) => true
  | _ => false

instance (s : Watched C Tally) (action : EngineAction) : Decidable (Persisted s action) :=
  match action with
  | .submitOrder _ => isTrue trivial
  | .advance k input =>
    decidable_of_iff (∀ th ∈ s.engine.threads[k]?, th.appendsTrade = true → input.err = none) (by
      constructor
      · exact fun h symbol trade rest hk => h _ hk rfl
      · intro h th hk hth
        unfold appendsTrade at hth
        split at hth
        · exact h _ _ _ hk
        · cases hth)

def oneTrade : List EngineAction :=
  oneSubmission ++
  .submitOrder ⟨"b", "BTC", "buy", "1", "1", "u2"⟩ :: advanceBy 2 6 ++ advanceBy 1 4

def processorFails : List EngineAction :=
  oneTrade ++ advanceBy 1 1 ++ [.advance 1 ⟨0, some "db down", 0⟩] ++ advanceBy 1 2

def logFails : List EngineAction :=
  oneTrade ++ [.advance 1 ⟨0, some "db down", 0⟩] ++ advanceBy 1 1

theorem processorFails_logged : ∃ s, Run.Reaches (Watched.step Tally.watch oneProcessor) Persisted
        (newTally sortedContainers newSequencer) s ∧
      s.seen.broadcast.length = 1 ∧ s.seen.taken "BTC" "a" = 100000000 ∧
      makerQty (loggedTrades s.engine.shared.log) "BTC" "a" = 100000000 ∧
      ∀ trade ∈ s.seen.broadcast, .tradeExecuted trade ∈ s.engine.shared.log := by
  refine Run.exists_reaches processorFails
    (P := fun s => HandedOver s.engine "BTC" ∧ s.seen.broadcast.length = 1 ∧
      s.seen.taken "BTC" "a" = 100000000) (by decide +kernel)
    fun s hs ⟨hover, hbroadcast, htaken⟩ => ?_
  obtain ⟨hlog, hin⟩ := log_records_what_books_did oneProcessor newSequencer s hs
  exact ⟨hbroadcast, htaken, (hlog "BTC" hover "a").trans htaken, hin⟩

/-- The sell order is gone from the book and the trade is broadcast, and the log knows nothing. -/
theorem logFails_not_recorded :
    ∃ s, Run.Reaches (Watched.step Tally.watch oneProcessor) (fun _ _ => True)
        (newTally sortedContainers newSequencer) s ∧
      HandedOver s.engine "BTC" ∧ s.seen.taken "BTC" "a" = 100000000 ∧
      makerQty (loggedTrades s.engine.shared.log) "BTC" "a" = 0 ∧
      ∃ trade ∈ s.seen.broadcast, .tradeExecuted trade ∉ s.engine.shared.log := by
  exact Run.exists_reaches logFails (by decide +kernel) fun _ _ h => h

end CexHertz
