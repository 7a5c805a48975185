import CexHertz.Lib.Json
import CexHertz.Service.PipelineCalls
import CexHertz.Service.TradeIDs

/-!
# Who is told of a trade

`processOrder` hands every trade to the pipeline, where the `WebSocketProcessor` announces it once
per trade id, and then announces it itself. Both have the same broadcaster and unicaster; what these
are called with is the history `sent`.
-/

namespace CexHertz

open List TradeExecutedEvent PipelineMemory Function

/-! ## Messages -/

abbrev Message := List (String × Json)

inductive Notice where
  | broadcast (symbol : String) (data : Message)
  | unicast (userID : String) (data : Message)

def formatPrice (price : Int) : String := Model.nanoString price

def formatQuantity (qty : Int) : String := Model.nanoString qty

def tradeFields (e : TradeExecutedEvent) : Message :=
  [("type", .str "trade"), ("trade_id", .str e.tradeID), ("symbol", .str e.symbolStr),
    ("price", .str (formatPrice e.price)), ("quantity", .str (formatQuantity e.quantity)),
    ("timestamp", .int e.timestamp)]

def ownTrade (e : TradeExecutedEvent) (myOrderID counterparty mySide : String) (isMaker : Bool) :
    Message :=
  tradeFields e ++ [("my_order_id", .str myOrderID), ("counterparty", .str counterparty),
    ("my_side", .str mySide), ("is_maker", .bool isMaker)]

def orderStatus (orderID status : String) (details : Message) (timestamp : Int) : Message :=
  [("type", .str "order_status"), ("order_id", .str orderID), ("status", .str status)] ++ details ++
    [("timestamp", .int timestamp)]

def tradeOf (data : Message) : Option String :=
  match data.lookup "type", data.lookup "trade_id" with
  | some (.str "trade"), some (.str id) => some id
  | _, _ => none

theorem tradeOf_tradeFields (e : TradeExecutedEvent) (rest : Message) :
    tradeOf (tradeFields e ++ rest) = some e.tradeID := rfl

namespace Notice

def Broadcasts (tradeID : String) : Notice → Bool
  | broadcast _ data => tradeOf data = some tradeID
  | unicast _ _ => false

def Tells (userID tradeID : String) : Notice → Bool
  | broadcast _ _ => false
  | unicast user data => user = userID && tradeOf data = some tradeID

end Notice

/-! ## The engine and its processor -/

/-- The position of the `WebSocketProcessor` in the pipeline, and whether the functions it shares
with the engine are set. -/
structure Wiring (n : Nat) where
  ws : Fin n
  broadcaster : Bool
  unicaster : Bool

variable {buyBefore sellBefore : Int → Int → Prop} [DecidableRel buyBefore]
  [DecidableRel sellBefore]

structure NoticeEngine (C : Containers buyBefore sellBefore) where
  book : OrderBook C
  pipeline : PipelineMemory
  /-- Of the `WebSocketProcessor`. -/
  processedEvents : String → Bool
  sent : List Notice

structure ProcessInput (n : Nat) where
  now : Int
  seq : Nat
  stamp : Nat → Stamp
  call : TradeExecutedEvent → CallInput n
  notified : Int

def tradeKey (e : TradeExecutedEvent) : String := "trade-" ++ e.tradeID

section

variable {n : Nat} (w : Wiring n)

def processorNotices (e : TradeExecutedEvent) : List Notice :=
  let message := tradeFields e ++ [("taker", .str e.takerUser), ("maker", .str e.makerUser),
    ("side", .str e.takerSide)]
  let makerSide := if e.takerSide = "sell" then "buy" else "sell"
  (if w.broadcaster then [.broadcast e.symbolStr message] else []) ++
    (if e.takerUser ≠ "" ∧ w.unicaster then
      [.unicast e.takerUser (ownTrade e e.takerOrderID e.makerUser e.takerSide false)] else []) ++
    if e.makerUser ≠ "" ∧ e.makerUser ≠ e.takerUser ∧ w.unicaster then
      [.unicast e.makerUser (ownTrade e e.makerOrderID e.takerUser makerSide true)] else []

/-- Of the engine, for one side of a trade; `none`: a nil function is called. -/
def unicastTrade (userID : String) (data : Message) : Option (List Notice) :=
  if userID = "" then some []
  else if w.unicaster then some [.unicast userID data]
  else none

def broadcastTrade (trade : TradeExecutedEvent) : Option (List Notice) :=
  if w.broadcaster then
    let data := tradeFields trade ++
      [("taker", .str trade.takerUser), ("maker", .str trade.makerUser)]
    (unicastTrade w trade.takerUser data).bind fun taker =>
      (unicastTrade w trade.makerUser data).map fun maker =>
        .broadcast trade.symbolStr data :: taker ++ maker
  else some []

def notifyOrderFilled (order : SubmitOrderMsg) (now : Int) : List Notice :=
  if w.unicaster then [.unicast order.userID (orderStatus order.orderID "filled" [] now)] else []

def notifyOrderPending (order : SubmitOrderMsg) (remainingQty : Int) (now : Int) : List Notice :=
  if w.unicaster then
    [.unicast order.userID (orderStatus order.orderID "pending"
      [("remaining_qty", .str (formatQuantity remainingQty))] now)]
  else []

def statusNotices {C : Containers buyBefore sellBefore} (order : SubmitOrderMsg)
    (result : MatchResult C) (now : Int) : List Notice :=
  if result.remainingQty = 0 ∧ 0 < result.events.length then notifyOrderFilled w order now
  else if 0 < result.remainingQty then notifyOrderPending w order result.remainingQty now
  else []

end

namespace NoticeEngine

variable {C : Containers buyBefore sellBefore} (cfg : EngineConfig)
  (w : Wiring cfg.processors.length) (s : NoticeEngine C)

def once (eventKey : String) (notices : List Notice) : NoticeEngine C :=
  if s.processedEvents eventKey then s
  else
    { s with
      processedEvents := update s.processedEvents eventKey true
      sent := s.sent ++ notices }

def handleTradeExecuted (e : TradeExecutedEvent) : NoticeEngine C :=
  s.once (tradeKey e) (processorNotices w e)

def handleOrderSubmitted (e : OrderSubmittedEvent) : NoticeEngine C :=
  s.once ("order-submitted-" ++ e.orderID)
    (if w.unicaster then
      [.unicast e.userID (orderStatus e.orderID "submitted"
        [("symbol", .str e.symbolStr), ("side", .str e.side), ("price", .str (formatPrice e.price)),
          ("quantity", .str (formatQuantity e.quantity))] e.timestamp)]
    else [])

-- The event has no user, so nobody is told.
def handleOrderCancelled (e : OrderCancelledEvent) : NoticeEngine C :=
  s.once ("order-cancelled-" ++ e.orderID) []

def handle : MatchingEngineEvent → NoticeEngine C
  | .tradeExecuted e => s.handleTradeExecuted cfg w e
  | .orderSubmitted e => s.handleOrderSubmitted cfg w e
  | .orderCancelled e => s.handleOrderCancelled e

/-- `ProcessEvent` of the pipeline: the processor handles the event as often as it is called. -/
def publish (input : CallInput cfg.processors.length) (event : MatchingEngineEvent) :
    Option (NoticeEngine C) :=
  (s.pipeline.processEvent cfg.processors input event).map fun r =>
    let calls := (r.2.given.drop s.pipeline.given.length).filter fun d => d.1.1 = w.ws.val
    calls.foldl (fun s _ => s.handle cfg w event) { s with pipeline := r.2 }

def publishAll (requests : List (CallInput cfg.processors.length × MatchingEngineEvent)) :
    Option (NoticeEngine C) :=
  requests.foldlM (fun s r => s.publish cfg w r.1 r.2) s

/-- One trade of `processOrder`: an error of the pipeline is only logged. -/
def announce (call : TradeExecutedEvent → CallInput cfg.processors.length) (s : NoticeEngine C)
    (event : TradeExecutedEvent) : Option (NoticeEngine C) :=
  (s.publish cfg w (call event) (.tradeExecuted event)).bind fun s =>
    (broadcastTrade w event).map fun notices => { s with sent := s.sent ++ notices }

def matched (symbol : String) (orderMsg : SubmitOrderMsg)
    (input : ProcessInput cfg.processors.length) : MatchResult C :=
  matchOrder s.book (bookEntry cfg symbol orderMsg input.now input.seq) input.stamp

def processOrder (symbol : String) (orderMsg : SubmitOrderMsg)
    (input : ProcessInput cfg.processors.length) : Option (NoticeEngine C) :=
  let result := s.matched cfg symbol orderMsg input
  (result.events.foldlM (announce cfg w input.call) { s with book := result.book }).map fun s =>
    { s with sent := s.sent ++ statusNotices w orderMsg result input.notified }

end NoticeEngine

/-! ## Whether an order trades -/

section

variable {before : Int → Int → Prop} [DecidableRel before] {L : Levels before}
  {stops : Int → Bool} {symbol takerSide : String} {order : OrderBookEntry}
  {stamp : Nat → Stamp} {P : OrderBookEntry → Prop} {C : Containers buyBefore sellBefore}

/-- There is something to match, and the limit of the order admits the first level of the opposite
side. -/
def OrderBook.Meets (ob : OrderBook C) (order : OrderBookEntry) : Prop :=
  0 < order.quantity ∧
    if order.side = "buy" then ∃ level, C.sells.front ob.sells = some level ∧ level.1 ≤ order.price
    else ∃ level, C.buys.front ob.buys = some level ∧ order.price ≤ level.1

-- Trades are only ever added.
theorem exit_events_ne_nil {st : MatchState L} (h : st.events ≠ []) :
    ((matchLoop L stops symbol takerSide order stamp).exit st).events ≠ [] := by
  refine (matchLoop L stops symbol takerSide order stamp).exit_invariant
    (I := fun st => st.events ≠ []) (fun st st' hst hturn => ?_) h
  obtain ⟨_, _, _, _, -, he | ⟨qty, he⟩⟩ := matchBody_events hturn
  · rwa [he]
  · rw [he]
    simp

theorem exit_events_eq_nil_iff {levels : L.Carrier} (hok : LevelsOk P (L.elements levels)) :
    ((matchLoop L stops symbol takerSide order stamp).exit
        (matchStart L levels order)).events = [] ↔
      ¬ (0 < order.quantity ∧ ∃ level, L.front levels = some level ∧ stops level.1 = false) := by
  constructor
  · rintro hnil ⟨hqty, ⟨price, queue⟩, hfront, hstops⟩
    rw [L.front_eq] at hfront
    obtain ⟨tl, hel⟩ := List.head?_eq_some_iff.mp hfront
    have hfirst := hok _ (hel ▸ mem_cons_self)
    obtain ⟨maker, rest, rfl⟩ := exists_cons_of_ne_nil hfirst.nonempty
    have hopen := (hfirst.entries maker mem_cons_self).filled_lt
    obtain ⟨st, hst⟩ : ∃ st, st = fillMaker L symbol takerSide order stamp
        (matchStart L levels order) price maker rest := ⟨_, rfl⟩
    have hturn := hst ▸ matchBody_of_first hel hqty hstops
    rw [Loop.Bounded.exit_of_some _ hturn] at hnil
    refine exit_events_ne_nil ?_ hnil
    rcases fillMaker_cases hel hqty hst with ⟨hle, -⟩ | ⟨-, -, -, -, he⟩ | ⟨-, -, -, he⟩
    · omega
    · rw [he]
      simp
    · rw [he]
      simp
  · intro hnot
    have hstop : matchBody L stops symbol takerSide order stamp (matchStart L levels order) =
        none := by
      rw [Option.eq_none_iff_forall_not_mem]
      intro st' hturn
      obtain ⟨price, maker, rest, tl, hel, hrem, hstops, -⟩ := matchBody_eq_some hturn
      refine hnot ⟨hrem, (price, maker :: rest), ?_, hstops⟩
      rw [L.front_eq]
      exact hel ▸ rfl
    rw [Loop.Bounded.exit_of_none _ hstop]
    rfl

theorem matchOrder_events_eq_nil_iff {ob : OrderBook C} (hok : ob.Ok P) (stamp : Nat → Stamp) :
    (matchOrder ob order stamp).events = [] ↔ ¬ ob.Meets order := by
  unfold matchOrder OrderBook.Meets
  split
  · show (matchBuyOrder ob order stamp).events = [] ↔ _
    refine (exit_events_eq_nil_iff hok.sells).trans ?_
    simp only [decide_eq_false_iff_not, not_lt]
  · show (matchSellOrder ob order stamp).events = [] ↔ _
    refine (exit_events_eq_nil_iff hok.buys).trans ?_
    simp only [decide_eq_false_iff_not, gt_iff_lt, not_lt]

theorem exit_tradeIDs {levels : L.Carrier} {out : MatchState L}
    (hout : out =
      (matchLoop L stops symbol takerSide order stamp).exit (matchStart L levels order)) :
    out.events.map tradeID =
      (List.range out.events.length).map (tradeIDOf (idText symbol order.orderID)) := by
  subst hout
  refine (matchLoop L stops symbol takerSide order stamp).exit_invariant
    (I := fun st => st.events.map tradeID =
      (List.range st.events.length).map (tradeIDOf (idText symbol order.orderID)))
    (fun st st' hst hturn => ?_) rfl
  obtain ⟨_, _, _, _, -, he | ⟨qty, he⟩⟩ := matchBody_events hturn
  · rwa [he]
  · rw [he, map_append, hst, length_append, length_singleton, range_succ, map_append]
    rfl

theorem matchOrder_tradeIDs_nodup (ob : OrderBook C) :
    ((matchOrder ob order stamp).events.map tradeID).Nodup := by
  have hnodup : ∀ (text : String) n, ((List.range n).map (tradeIDOf text)).Nodup := fun text n =>
    nodup_range.map fun _ _ h => (tradeIDOf_inj h).2
  unfold matchOrder
  split
  · show ((matchBuyOrder ob order stamp).events.map tradeID).Nodup
    rw [exit_tradeIDs (rfl : matchBuyOrder ob order stamp = _)]
    exact hnodup _ _
  · show ((matchSellOrder ob order stamp).events.map tradeID).Nodup
    rw [exit_tradeIDs (rfl : matchSellOrder ob order stamp = _)]
    exact hnodup _ _

end

/-! ## One trade -/

section

variable {n : Nat} (w : Wiring n) (e : TradeExecutedEvent)

def engineNotices : List Notice :=
  let data := tradeFields e ++ [("taker", .str e.takerUser), ("maker", .str e.makerUser)]
  if w.broadcaster then
    .broadcast e.symbolStr data ::
      (if e.takerUser = "" then [] else [.unicast e.takerUser data]) ++
      if e.makerUser = "" then [] else [.unicast e.makerUser data]
  else []

def announcements : List Notice := processorNotices w e ++ engineNotices w e

variable {w e}

theorem unicastTrade_eq_some {userID : String} {data : Message} {notices : List Notice}
    (h : unicastTrade w userID data = some notices) :
    notices = if userID = "" then [] else [.unicast userID data] := by
  unfold unicastTrade at h
  split at h
  next huser =>
    cases h
    exact (if_pos huser).symm
  next huser =>
    split at h
    next =>
      cases h
      exact (if_neg huser).symm
    next => cases h

theorem eq_engineNotices {notices : List Notice} (h : broadcastTrade w e = some notices) :
    notices = engineNotices w e := by
  unfold broadcastTrade at h
  unfold engineNotices
  split at h
  next hset =>
    obtain ⟨taker, htaker, h⟩ := Option.bind_eq_some_iff.mp h
    obtain ⟨maker, hmaker, rfl⟩ := Option.map_eq_some_iff.mp h
    rw [if_pos hset, unicastTrade_eq_some htaker, unicastTrade_eq_some hmaker]
  next hnot =>
    cases h
    rw [if_neg hnot]

theorem broadcasts_trade (symbol tradeID : String) (rest : Message) :
    Notice.Broadcasts tradeID (.broadcast symbol (tradeFields e ++ rest)) =
      decide (e.tradeID = tradeID) := by
  unfold Notice.Broadcasts
  simp only [tradeOf_tradeFields, Option.some.injEq]

theorem countP_broadcasts (w : Wiring n) (e : TradeExecutedEvent) (tradeID : String) :
    (announcements w e).countP (Notice.Broadcasts tradeID) =
      if w.broadcaster = true ∧ e.tradeID = tradeID then 2 else 0 := by
  have hunicast : ∀ (p : Prop) [Decidable p] user data,
      (if p then [Notice.unicast user data] else []).countP (Notice.Broadcasts tradeID) = 0 := by
    intro p _ user data
    split <;> rfl
  have hunicast' : ∀ (p : Prop) [Decidable p] user data,
      (if p then [] else [Notice.unicast user data]).countP (Notice.Broadcasts tradeID) = 0 := by
    intro p _ user data
    split <;> rfl
  unfold announcements processorNotices engineNotices
  by_cases hset : w.broadcaster = true
  · simp only [hset, if_true, countP_append, countP_cons, countP_nil,
      broadcasts_trade, hunicast, hunicast', true_and, decide_eq_true_eq]
    split <;> rfl
  · simp only [hset, Bool.false_eq_true, if_false, countP_append, countP_nil, hunicast, false_and]

-- The other trades of an order have other ids.
theorem countP_flatMap_announcements {trades : List TradeExecutedEvent}
    (hids : (trades.map tradeID).Nodup) (he : e ∈ trades) {p : Notice → Bool}
    (hother : ∀ x : TradeExecutedEvent, x.tradeID ≠ e.tradeID → (announcements w x).countP p = 0) :
    (trades.flatMap (announcements w)).countP p = (announcements w e).countP p := by
  have hzero : ∀ l : List TradeExecutedEvent, (∀ x ∈ l, x.tradeID ≠ e.tradeID) →
      (l.flatMap (announcements w)).countP p = 0 := by
    intro l hl
    rw [countP_eq_zero]
    intro notice hmem
    obtain ⟨x, hx, hmem⟩ := mem_flatMap.mp hmem
    exact countP_eq_zero.mp (hother x (hl x hx)) notice hmem
  obtain ⟨l, l', rfl⟩ := append_of_mem he
  rw [map_append, map_cons, nodup_middle, nodup_cons, mem_append] at hids
  have hl : ∀ x ∈ l, x.tradeID ≠ e.tradeID := fun x hx heq =>
    hids.1 (.inl (heq ▸ mem_map_of_mem hx))
  have hl' : ∀ x ∈ l', x.tradeID ≠ e.tradeID := fun x hx heq =>
    hids.1 (.inr (heq ▸ mem_map_of_mem hx))
  rw [flatMap_append, flatMap_cons, countP_append, countP_append, hzero l hl,
    hzero l' hl', Nat.zero_add, Nat.add_zero]

end

namespace NoticeEngine

variable {C : Containers buyBefore sellBefore} {cfg : EngineConfig}
  {w : Wiring cfg.processors.length} {s s' : NoticeEngine C} {e : TradeExecutedEvent}
  {trades : List TradeExecutedEvent} {call : TradeExecutedEvent → CallInput cfg.processors.length}

/-- All processors succeed and none of the trades is skipped, by the pipeline or by the
`WebSocketProcessor`. -/
structure Smooth (cfg : EngineConfig) (call : TradeExecutedEvent → CallInput cfg.processors.length)
    (s : NoticeEngine C) (trades : List TradeExecutedEvent) : Prop where
  names : cfg.processors.Nodup
  appended : ∀ e ∈ trades, (call e).appendErr = none
  answers : ∀ e ∈ trades, ∀ i < cfg.processors.length, (call e).answer i = none
  offsets : ∀ e ∈ trades, ∀ i < cfg.processors.length,
    s.pipeline.lastSeq cfg.processors (.tradeExecuted e) i < e.seq
  ascending : trades.Pairwise fun a b => a.seq < b.seq
  keys : ∀ e ∈ trades, s.processedEvents (tradeKey e) = false

theorem Smooth.succeeds (h : Smooth cfg call s (e :: trades)) :
    ∀ i ∈ (call e).order, PipelineMemory.Succeeds cfg.processors (call e) (.tradeExecuted e)
      (s.pipeline.appended (.tradeExecuted e)) i := by
  intro i hi
  have hlt := (call e).mem_order.mp hi
  exact ⟨h.offsets e mem_cons_self i hlt, h.answers e mem_cons_self i hlt⟩

theorem tradeKey_inj {a b : TradeExecutedEvent} (h : tradeKey a = tradeKey b) :
    a.tradeID = b.tradeID := by
  have hlist := congrArg String.toList h
  unfold tradeKey at hlist
  rw [String.toList_append, String.toList_append] at hlist
  exact String.toList_inj.mp (append_cancel_left hlist)

-- A key that is known stays known, and its handler does nothing.
theorem once_of_new {key : String} (h : s.processedEvents key = false) (notices : List Notice) :
    s.once key notices = { s with
        processedEvents := update s.processedEvents key true
        sent := s.sent ++ notices } := if_neg (by simp [h])

structure Published (cfg : EngineConfig) (w : Wiring cfg.processors.length)
    (e : TradeExecutedEvent) (s s' : NoticeEngine C) : Prop where
  sent : s'.sent = s.sent ++ processorNotices w e
  processedEvents : s'.processedEvents = update s.processedEvents (tradeKey e) true
  checkpointMgr : s'.pipeline.checkpointMgr = none
  offsets : ∀ name symbol,
    s'.pipeline.processorOffsets name symbol = s.pipeline.processorOffsets name symbol ∨
      s'.pipeline.processorOffsets name symbol = e.seq

theorem Smooth.publish (h : Smooth cfg call s (e :: trades))
    (hcm : s.pipeline.checkpointMgr = none) :
    ∃ s', s.publish cfg w (call e) (.tradeExecuted e) = some s' ∧ Published cfg w e s s' := by
  obtain ⟨q, hrun, -, hgiven⟩ : ∃ q, (call e).order.foldlM (runProcessor
      cfg.processors (call e) (.tradeExecuted e) none)
      ([], s.pipeline.appended (.tradeExecuted e)) = some ([], q) ∧ _ ∧ _ :=
    dispatch_of_all (s := s.pipeline.appended (.tradeExecuted e)) hcm
      ((call e).names_nodup h.names) h.succeeds []
  have hprocess : s.pipeline.processEvent cfg.processors (call e) (.tradeExecuted e) =
      some (none, q) :=
    appendAndDispatch_of_dispatch (h.appended e mem_cons_self) hrun
  have hcalls : (q.given.drop s.pipeline.given.length).filter (fun d => d.1.1 = w.ws.val) =
      [((w.ws.val, .tradeExecuted e), none)] := by
    rw [hgiven]
    show List.filter _ (List.drop s.pipeline.given.length (s.pipeline.given ++ _)) = _
    rw [drop_left, filter_map]
    show List.map _ ((call e).order.filter fun i => i = w.ws.val) = _
    rw [filter_eq, count_eq_one_of_mem (call e).order_nodup
      ((call e).mem_order.mpr w.ws.isLt)]
    rfl
  have hpublish : s.publish cfg w (call e) (.tradeExecuted e) =
      some (NoticeEngine.once { s with pipeline := q } (tradeKey e) (processorNotices w e)) := by
    unfold NoticeEngine.publish
    rw [hprocess]
    dsimp only [Option.map_some]
    rw [hcalls]
    rfl
  rw [once_of_new (s := { s with pipeline := q }) (h.keys e mem_cons_self)] at hpublish
  refine ⟨_, hpublish, rfl, rfl, ?_, ?_⟩
  · exact (dispatch_checkpointMgr hrun).mpr hcm
  · exact fun name symbol => dispatch_offsets hrun name symbol

theorem Smooth.publish_panics (h : Smooth cfg call s (e :: trades))
    (hcm : s.pipeline.checkpointMgr ≠ none) :
    s.publish cfg w (call e) (.tradeExecuted e) = none := by
  have hsucc := h.succeeds w.ws.val ((call e).mem_order.mpr w.ws.isLt)
  unfold NoticeEngine.publish
  rw [processEvent_panics (h.appended e mem_cons_self) hcm
    ⟨w.ws.val, w.ws.isLt, hsucc⟩]
  rfl

-- The keys of the other trades are still new, and their numbers are above all offsets.
theorem Smooth.published (h : Smooth cfg call s (e :: trades)) (hp : Published cfg w e s s')
    (hids : ((e :: trades).map tradeID).Nodup) : Smooth cfg call s' trades := by
  have hasc := pairwise_cons.mp h.ascending
  refine ⟨h.names, fun x hx => h.appended x (.tail _ hx),
    fun x hx => h.answers x (.tail _ hx), fun x hx i hi => ?_, hasc.2,
    fun x hx => ?_⟩
  · rcases hp.offsets (cfg.processors.getD i "") x.symbolStr with hold | hnew
    · exact hold.trans_lt (h.offsets x (.tail _ hx) i hi)
    · exact hnew.trans_lt (hasc.1 x hx)
  · have hne : tradeKey x ≠ tradeKey e := fun heq =>
      (nodup_cons.mp hids).1 (tradeKey_inj heq ▸ mem_map_of_mem hx)
    rw [hp.processedEvents, update_of_ne hne]
    exact h.keys x (.tail _ hx)

theorem Smooth.announceAll (h : Smooth cfg call s trades)
    (hids : (trades.map tradeID).Nodup)
    (hrun : trades.foldlM (announce cfg w call) s = some s') :
    s'.sent = s.sent ++ trades.flatMap (announcements w) ∧ ∀ key, s'.processedEvents key = true ↔
        s.processedEvents key = true ∨ ∃ e ∈ trades, tradeKey e = key := by
  induction trades generalizing s with
  | nil =>
    cases hrun
    exact ⟨(append_nil _).symm, by simp⟩
  | cons e rest ih =>
    rw [foldlM_cons] at hrun
    obtain ⟨t, ht, hrest⟩ := Option.bind_eq_some_iff.mp hrun
    obtain ⟨q, hq, ht⟩ := Option.bind_eq_some_iff.mp ht
    obtain ⟨notices, hnotices, rfl⟩ := Option.map_eq_some_iff.mp ht
    have hcm : s.pipeline.checkpointMgr = none := by
      by_contra hcm
      rw [h.publish_panics hcm] at hq
      cases hq
    obtain ⟨q', hq', hp⟩ := h.publish (w := w) hcm
    cases hq.symm.trans hq'
    have hsmooth := h.published hp hids
    obtain ⟨hsent, hkeys⟩ := ih (s := { q with sent := q.sent ++ notices })
      ⟨hsmooth.names, hsmooth.appended, hsmooth.answers, hsmooth.offsets, hsmooth.ascending,
        hsmooth.keys⟩ (nodup_cons.mp hids).2 hrest
    refine ⟨?_, fun key => ?_⟩
    · rw [hsent, flatMap_cons]
      show q.sent ++ notices ++ _ = _
      rw [hp.sent, announcements, eq_engineNotices hnotices]
      simp only [append_assoc]
    · rw [hkeys]
      show q.processedEvents key = true ∨ _ ↔ _
      rw [hp.processedEvents, update_apply]
      by_cases heq : key = tradeKey e
      · simp [heq]
      · simp [heq, Ne.symm heq]

theorem publish_known {input : CallInput cfg.processors.length}
    (h : s.processedEvents (tradeKey e) = true)
    (hrun : s.publish cfg w input (.tradeExecuted e) = some s') :
    s'.sent = s.sent ∧ s'.processedEvents = s.processedEvents := by
  obtain ⟨r, -, rfl⟩ := Option.map_eq_some_iff.mp hrun
  generalize (r.2.given.drop s.pipeline.given.length).filter (fun d => d.1.1 = w.ws.val) = calls
  -- every call finds the key
  have hsame : calls.foldl (fun s _ => s.handle cfg w (.tradeExecuted e))
      { s with pipeline := r.2 } = { s with pipeline := r.2 } := by
    induction calls with
    | nil => rfl
    | cons d rest ih =>
      have hknown : NoticeEngine.handle cfg w { s with pipeline := r.2 } (.tradeExecuted e) =
          { s with pipeline := r.2 } := if_pos h
      rwa [foldl_cons, hknown]
  rw [hsame]
  exact ⟨rfl, rfl⟩

theorem publishAll_known
    {requests : List (CallInput cfg.processors.length × MatchingEngineEvent)}
    (h : ∀ r ∈ requests, ∃ e, r.2 = .tradeExecuted e ∧ s.processedEvents (tradeKey e) = true)
    (hrun : s.publishAll cfg w requests = some s') : s'.sent = s.sent := by
  induction requests generalizing s with
  | nil =>
    cases hrun
    rfl
  | cons r rest ih =>
    unfold publishAll at hrun
    rw [foldlM_cons] at hrun
    obtain ⟨t, ht, hrest⟩ := Option.bind_eq_some_iff.mp hrun
    obtain ⟨e, he, hknown⟩ := h r mem_cons_self
    rw [he] at ht
    obtain ⟨hsent, hkeys⟩ := publish_known hknown ht
    rw [ih (fun x hx => hkeys ▸ h x (.tail _ hx)) hrest, hsent]

/-! ## Whole orders -/

section

variable (cfg w) (s : NoticeEngine C) (symbol : String) (orderMsg : SubmitOrderMsg)
  (input : ProcessInput cfg.processors.length)

/-- The call returns, the broadcaster has been called once for each trade, both sides have been told
once, and publishing trades of the order again tells nobody. -/
def AnnouncedOnce : Prop :=
  ∃ s', s.processOrder cfg w symbol orderMsg input = some s' ∧
    (∀ e ∈ (s.matched cfg symbol orderMsg input).events,
      (s'.sent.drop s.sent.length).countP (Notice.Broadcasts e.tradeID) = 1 ∧
      ∀ user, user = e.takerUser ∨ user = e.makerUser →
        (s'.sent.drop s.sent.length).countP (Notice.Tells user e.tradeID) = 1) ∧
    ∀ again s'', (∀ r ∈ again, ∃ e ∈ (s.matched cfg symbol orderMsg input).events,
        r.2 = .tradeExecuted e) →
      s'.publishAll cfg w again = some s'' → s''.sent = s'.sent

end

variable {symbol : String} {orderMsg : SubmitOrderMsg}
  {input : ProcessInput cfg.processors.length}

section

variable (h : Smooth cfg input.call s (s.matched cfg symbol orderMsg input).events)
  (hrun : s.processOrder cfg w symbol orderMsg input = some s')

include h hrun

theorem Smooth.processOrder :
    (s'.sent = s.sent ++ ((s.matched cfg symbol orderMsg input).events.flatMap (announcements w) ++
      statusNotices w orderMsg (s.matched cfg symbol orderMsg input) input.notified)) ∧
    ∀ e ∈ (s.matched cfg symbol orderMsg input).events, s'.processedEvents (tradeKey e) = true := by
  obtain ⟨t, ht, rfl⟩ := Option.map_eq_some_iff.mp hrun
  have hsmooth : Smooth cfg input.call
      { s with book := (s.matched cfg symbol orderMsg input).book }
      (s.matched cfg symbol orderMsg input).events :=
    ⟨h.names, h.appended, h.answers, h.offsets, h.ascending, h.keys⟩
  obtain ⟨hsent, hkeys⟩ := hsmooth.announceAll (matchOrder_tradeIDs_nodup s.book) ht
  refine ⟨?_, fun e he => (hkeys _).mpr (.inr ⟨e, he, rfl⟩)⟩
  rw [hsent, append_assoc]

theorem Smooth.broadcasts (he : e ∈ (s.matched cfg symbol orderMsg input).events) :
    (s'.sent.drop s.sent.length).countP (Notice.Broadcasts e.tradeID) =
      if w.broadcaster = true then 2 else 0 := by
  -- the messages about the order itself are not broadcast
  have hnone : (statusNotices w orderMsg (s.matched cfg symbol orderMsg input)
      input.notified).countP (Notice.Broadcasts e.tradeID) = 0 := by
    unfold statusNotices notifyOrderFilled notifyOrderPending
    split_ifs <;> simp [Notice.Broadcasts]
  have hother : ∀ x : TradeExecutedEvent, x.tradeID ≠ e.tradeID →
      (announcements w x).countP (Notice.Broadcasts e.tradeID) = 0 := fun x hx => by
    rw [countP_broadcasts, if_neg fun hand => hx hand.2]
  rw [(h.processOrder hrun).1, drop_left, countP_append, hnone, Nat.add_zero]
  refine (countP_flatMap_announcements (matchOrder_tradeIDs_nodup s.book) he hother).trans ?_
  rw [countP_broadcasts]
  simp only [and_true]

theorem Smooth.again
    {again : List (CallInput cfg.processors.length × MatchingEngineEvent)} {s'' : NoticeEngine C}
    (hagain : ∀ r ∈ again, ∃ e ∈ (s.matched cfg symbol orderMsg input).events,
      r.2 = .tradeExecuted e)
    (hpublish : s'.publishAll cfg w again = some s'') : s''.sent = s'.sent := by
  refine publishAll_known (fun r hr => ?_) hpublish
  obtain ⟨e, he, heq⟩ := hagain r hr
  exact ⟨e, heq, (h.processOrder hrun).2 e he⟩

end

theorem processOrder_of_no_trade (h : (s.matched cfg symbol orderMsg input).events = []) :
    ∃ s', s.processOrder cfg w symbol orderMsg input = some s' := by
  unfold NoticeEngine.processOrder
  dsimp only
  rw [h]
  exact ⟨_, rfl⟩

/-- With all processors succeeding and no trade skipped, an order's trades are announced once
exactly when there are none: when the order has nothing to match, or its limit does not admit the
first level of the opposite side. -/
theorem announced_once_iff (cfg : EngineConfig) (w : Wiring cfg.processors.length)
    (s : NoticeEngine C) (symbol : String) (orderMsg : SubmitOrderMsg)
    (input : ProcessInput cfg.processors.length) (hbook : s.book.Ok fun _ => True)
    (hsmooth : Smooth cfg input.call s (s.matched cfg symbol orderMsg input).events) :
    s.AnnouncedOnce cfg w symbol orderMsg input ↔
      ¬ s.book.Meets (bookEntry cfg symbol orderMsg input.now input.seq) := by
  rw [← matchOrder_events_eq_nil_iff hbook input.stamp]
  change _ ↔ (s.matched cfg symbol orderMsg input).events = []
  constructor
  · rintro ⟨s', hrun, hcounts, -⟩
    by_contra hne
    obtain ⟨e, he⟩ := exists_mem_of_ne_nil _ hne
    have hcount := (hcounts e he).1
    rw [hsmooth.broadcasts hrun he] at hcount
    split at hcount <;> cases hcount
  · intro hnil
    obtain ⟨s', hrun⟩ := processOrder_of_no_trade (w := w) hnil
    refine ⟨s', hrun, fun e he => ?_, fun again s'' hagain => hsmooth.again hrun hagain⟩
    rw [hnil] at he
    cases he

def socketOnly : EngineConfig := ⟨.amd64, ["WebSocketProcessor"], false⟩

def bothSet : Wiring socketOnly.processors.length := ⟨⟨0, by decide⟩, true, true⟩

def bobSells (checkpointMgr : Option CheckpointManager) : NoticeEngine sortedContainers where
  book := (matchOrder (newOrderBook sortedContainers "BTC/USDT")
    (.limit "o1" "bob" "sell" 100000000 100000000) noStamp).book
  pipeline := .new checkpointMgr
  processedEvents := fun _ => false
  sent := []

def aliceBuys (price : String) : SubmitOrderMsg := ⟨"o2", "BTC/USDT", "buy", price, "1", "alice"⟩

def quietInput : ProcessInput socketOnly.processors.length :=
  ⟨0, 1, fun i => ⟨i + 2, 0⟩, fun _ => .quiet _, 0⟩

theorem aliceBuys_smooth {price : String} (hprice : price ∈ ["0.5", "1"]) :
    Smooth socketOnly quietInput.call (bobSells none)
      ((bobSells none).matched socketOnly "BTC/USDT" (aliceBuys price) quietInput).events := by
  constructor
  all_goals
    revert price
    decide +kernel

/-- A bid below bob's price has no trade to announce; one at his price has one. -/
theorem low_bid_announced_once :
    ((bobSells none).matched socketOnly "BTC/USDT" (aliceBuys "0.5") quietInput).events = [] ∧
      (bobSells none).AnnouncedOnce socketOnly bothSet "BTC/USDT" (aliceBuys "0.5") quietInput ∧
      ((bobSells none).matched socketOnly "BTC/USDT" (aliceBuys "1") quietInput).events.length = 1 ∧
      ¬ (bobSells none).AnnouncedOnce socketOnly bothSet "BTC/USDT" (aliceBuys "1") quietInput := by
  have hbook : (bobSells none).book.Ok fun _ => True :=
    (newOrderBook_ok "BTC/USDT").matchOrder (fun _ _ _ h => h) trivial
  have hiff : ∀ price ∈ ["0.5", "1"],
      (bobSells none).AnnouncedOnce socketOnly bothSet "BTC/USDT" (aliceBuys price) quietInput ↔
        ((bobSells none).matched socketOnly "BTC/USDT" (aliceBuys price) quietInput).events =
          [] := by
    intro price hprice
    rw [announced_once_iff socketOnly bothSet (bobSells none) "BTC/USDT" (aliceBuys price)
      quietInput hbook (aliceBuys_smooth hprice), ← matchOrder_events_eq_nil_iff hbook _]
    rfl
  have hnil : ((bobSells none).matched socketOnly "BTC/USDT" (aliceBuys "0.5")
      quietInput).events = [] := by decide +kernel
  have hone : ((bobSells none).matched socketOnly "BTC/USDT" (aliceBuys "1")
      quietInput).events.length = 1 := by decide +kernel
  refine ⟨hnil, (hiff "0.5" (by decide)).mpr hnil, hone, fun h => ?_⟩
  rw [(hiff "1" (by decide)).mp h] at hone
  cases hone

/-- Alice buys bob's coin: two broadcasts, and two messages for each of them.  With a checkpoint
manager set the call does not get that far. -/
theorem one_trade_announced_twice :
    (((bobSells none).processOrder socketOnly bothSet "BTC/USDT" (aliceBuys "1") quietInput).map
      fun s => (s.sent.countP (Notice.Broadcasts "BTC/USDT-o2-0"),
        s.sent.countP (Notice.Tells "alice" "BTC/USDT-o2-0"),
        s.sent.countP (Notice.Tells "bob" "BTC/USDT-o2-0"))) = some (2, 2, 2) ∧
      ¬ (bobSells none).AnnouncedOnce socketOnly bothSet "BTC/USDT" (aliceBuys "1") quietInput ∧
      (bobSells (some ⟨fun _ => none⟩)).processOrder socketOnly bothSet "BTC/USDT" (aliceBuys "1")
        quietInput = none := by
  have hcounts : (((bobSells none).processOrder socketOnly bothSet "BTC/USDT" (aliceBuys "1")
      quietInput).map fun s => (s.sent.countP (Notice.Broadcasts "BTC/USDT-o2-0"),
        s.sent.countP (Notice.Tells "alice" "BTC/USDT-o2-0"),
        s.sent.countP (Notice.Tells "bob" "BTC/USDT-o2-0"))) = some (2, 2, 2) := by
    decide +kernel
  have hids : (((bobSells none).matched socketOnly "BTC/USDT" (aliceBuys "1")
      quietInput).events.map tradeID) = ["BTC/USDT-o2-0"] := by decide +kernel
  refine ⟨hcounts, ?_, Option.isNone_iff_eq_none.mp (by decide +kernel)⟩
  rintro ⟨s', hrun, hsent, -⟩
  obtain ⟨e, he, hid⟩ : ∃ e ∈ ((bobSells none).matched socketOnly "BTC/USDT" (aliceBuys "1")
      quietInput).events, e.tradeID = "BTC/USDT-o2-0" :=
    mem_map.mp (hids ▸ mem_cons_self)
  have hone := (hsent e he).1
  rw [hrun, Option.map_some, Option.some.injEq, Prod.mk.injEq] at hcounts
  rw [hid] at hone
  exact absurd (hone.symm.trans hcounts.1) (by decide)

end NoticeEngine

end CexHertz
