import CexHertz.Service.RestingOrders
import Mathlib.Algebra.BigOperators.Group.List.Basic
import Mathlib.Algebra.Order.BigOperators.Group.List

/-!
# Where the quantity of an order goes

An order's quantity is split between the trades it takes, the trades it makes, what rests in the
book and what a cancel takes off. The book keeps the order twice, as the entry in `orders` and as a
fresh resting copy; the invariant `Recorded` ties the two together.
-/

namespace CexHertz

open Function List TradeExecutedEvent

variable {before : Int → Int → Prop} [DecidableRel before]
variable {buyBefore sellBefore : Int → Int → Prop} [DecidableRel buyBefore]
  [DecidableRel sellBefore]

/-! ## Totals -/

def openQty (x : OrderBookEntry) : Int := x.quantity - x.filledQty

def openTotal (ids : String → Bool) (l : List OrderBookEntry) : Int :=
  ((l.filter fun x => ids x.orderID).map openQty).sum

def tradedTotal (party : TradeExecutedEvent → String) (ids : String → Bool)
    (trades : List TradeExecutedEvent) : Int :=
  ((trades.filter fun e => ids (party e)).map quantity).sum

section

variable {ids : String → Bool} {l l' : List OrderBookEntry}

theorem openTotal_append : openTotal ids (l ++ l') = openTotal ids l + openTotal ids l' := by
  simp [openTotal, filter_append, map_append, sum_append]

theorem openTotal_cons (x : OrderBookEntry) (l : List OrderBookEntry) :
    openTotal ids (x :: l) = (if ids x.orderID then openQty x else 0) + openTotal ids l := by
  unfold openTotal
  by_cases h : ids x.orderID <;> simp [h]

theorem openTotal_perm (h : l.Perm l') : openTotal ids l = openTotal ids l' :=
  ((h.filter _).map _).sum_eq

-- A total splits over any test on the orders.
theorem openTotal_filter_add (keep : OrderBookEntry → Bool) (l : List OrderBookEntry) :
    openTotal ids l =
      openTotal ids (l.filter keep) + openTotal ids (l.filter fun x => !keep x) := by
  rw [← openTotal_append]
  exact openTotal_perm (filter_append_perm keep l).symm

theorem openTotal_eq_zero (h : ∀ x ∈ l, ids x.orderID = false) : openTotal ids l = 0 := by
  have hnil : (l.filter fun x => ids x.orderID) = [] := by
    rw [filter_eq_nil_iff]
    intro x hx
    simp [h x hx]
  rw [openTotal, hnil]
  rfl

theorem openTotal_nonneg (h : ∀ x ∈ l, x.filledQty < x.quantity) : 0 ≤ openTotal ids l := by
  apply sum_nonneg
  intro q hq
  obtain ⟨x, hx, rfl⟩ := mem_map.mp hq
  have hlt := h x (mem_of_mem_filter hx)
  unfold openQty
  omega

variable {party : TradeExecutedEvent → String} {trades trades' : List TradeExecutedEvent}

theorem tradedTotal_append : tradedTotal party ids (trades ++ trades') =
      tradedTotal party ids trades + tradedTotal party ids trades' := by
  simp [tradedTotal, filter_append, map_append, sum_append]

-- One trade counts for the ids that are a party to it.
theorem tradedTotal_singleton (e : TradeExecutedEvent) :
    tradedTotal party ids [e] = if ids (party e) then e.quantity else 0 := by
  unfold tradedTotal
  by_cases h : ids (party e) <;> simp [h]

theorem tradedTotal_of_party {id : String} (h : ∀ e ∈ trades, party e = id) :
    tradedTotal party ids trades =
      if ids id then tradedTotal party (fun _ => true) trades else 0 := by
  unfold tradedTotal
  split
  next hid =>
    congr 2
    apply filter_congr
    intro e he
    rw [h e he, hid]
  next hid =>
    have hnil : (trades.filter fun e => ids (party e)) = [] := by
      rw [filter_eq_nil_iff]
      intro e he
      rwa [h e he]
    rw [hnil]
    rfl

end

/-! ## One matching loop -/

section

variable {L : Levels before} {stops : Int → Bool} {symbol takerSide : String}
  {order : OrderBookEntry} {stamp : Nat → Stamp} {P : OrderBookEntry → Prop}
  {st₀ st st' : MatchState L}

/-- From `st₀` to `st`, what left the resting orders and the incoming order is in the trades. -/
structure Conserves (order : OrderBookEntry) (st₀ st : MatchState L) : Prop where
  maker : ∀ ids, openTotal ids (restingOrders (L.elements st₀.levels)) =
    openTotal ids (restingOrders (L.elements st.levels)) +
      tradedTotal makerOrderID ids st.events
  taker : st₀.remainingQty = st.remainingQty +
    tradedTotal takerOrderID (fun _ => true) st.events
  takerID : ∀ e ∈ st.events, e.takerOrderID = order.orderID
  positive : ∀ e ∈ st.events, 0 < e.quantity
  remaining_nonneg : 0 ≤ st₀.remainingQty → 0 ≤ st.remainingQty

theorem Conserves.trade (h : Conserves order st₀ st) {e : TradeExecutedEvent} {qty : Int}
    (hev : st'.events = st.events ++ [e]) (htaker : e.takerOrderID = order.orderID)
    (hqty : e.quantity = qty) (hpos : 0 < qty) (hle : qty ≤ st.remainingQty)
    (hrem : st'.remainingQty = st.remainingQty - qty)
    (hopen : ∀ ids, openTotal ids (restingOrders (L.elements st.levels)) =
      openTotal ids (restingOrders (L.elements st'.levels)) +
        if ids e.makerOrderID then qty else 0) : Conserves order st₀ st' := by
  refine ⟨fun ids => ?_, ?_, fun x hx => ?_, fun x hx => ?_, fun _ => ?_⟩
  · rw [h.maker, hopen, hev, tradedTotal_append, tradedTotal_singleton, hqty]
    omega
  · rw [h.taker, hrem, hev, tradedTotal_append, tradedTotal_singleton, hqty, if_pos rfl]
    omega
  · rw [hev] at hx
    rcases mem_append.mp hx with hx | hx
    · exact h.takerID x hx
    · rw [mem_singleton.mp hx, htaker]
  · rw [hev] at hx
    rcases mem_append.mp hx with hx | hx
    · exact h.positive x hx
    · rwa [mem_singleton.mp hx, hqty]
  · omega

/-- A turn trades once, with the first order, and what it takes off that order is in the trade. -/
theorem matchBody_trade (hok : LevelsOk P (L.elements st.levels))
    (hturn : matchBody L stops symbol takerSide order stamp st = some st') :
    ∃ e, st'.events = st.events ++ [e] ∧ e.symbolStr = symbol ∧
      e.takerOrderID = order.orderID ∧ 0 < e.quantity ∧ e.quantity ≤ st.remainingQty ∧
      st'.remainingQty = st.remainingQty - e.quantity ∧
      ∀ ids, openTotal ids (restingOrders (L.elements st.levels)) =
        openTotal ids (restingOrders (L.elements st'.levels)) +
          if ids e.makerOrderID then e.quantity else 0 := by
  obtain ⟨price, maker, rest, tl, hel, hrem, -, hst⟩ := matchBody_eq_some hturn
  have hopen := ((hok _ (hel ▸ mem_cons_self)).entries maker mem_cons_self).filled_lt
  rcases fillMaker_cases hel hrem hst with ⟨hle, -⟩ | ⟨hpos, hle, hlev, hleft, hev⟩ |
    ⟨hlt, hlev, hleft, hev⟩
  · -- a resting order is open, so no turn drops one without a trade
    omega
  · -- the first order is filled and leaves
    refine ⟨_, hev, rfl, rfl, hpos, hle, hleft, fun ids => ?_⟩
    rw [hel, hlev, restingOrders_withQueue, restingOrders_cons, cons_append, openTotal_cons]
    change (if ids maker.orderID then maker.quantity - maker.filledQty else 0) + _ =
      _ + (if ids maker.orderID then maker.quantity - maker.filledQty else 0)
    omega
  · -- it is filled in part and stays in front
    refine ⟨_, hev, rfl, rfl, hrem, le_refl _, hleft.trans (Int.sub_self _).symm, fun ids => ?_⟩
    rw [hel, hlev, restingOrders_cons, restingOrders_cons, cons_append, cons_append,
      openTotal_cons, openTotal_cons]
    change (if ids maker.orderID then maker.quantity - maker.filledQty else 0) + _ =
      ((if ids maker.orderID then maker.quantity - (maker.filledQty + st.remainingQty) else 0) +
        _) + (if ids maker.orderID then st.remainingQty else 0)
    split <;> omega

theorem Conserves.turn (h : Conserves order st₀ st) (hok : LevelsOk P (L.elements st.levels))
    (hturn : matchBody L stops symbol takerSide order stamp st = some st') :
    Conserves order st₀ st' := by
  obtain ⟨e, hev, -, htaker, hpos, hle, hleft, hopen⟩ := matchBody_trade hok hturn
  exact h.trade hev htaker rfl hpos hle hleft hopen

theorem conserves_exit (hP : Stable P) {levels : L.Carrier}
    (hok : LevelsOk P (L.elements levels)) :
    Conserves order (matchStart L levels order)
      ((matchLoop L stops symbol takerSide order stamp).exit (matchStart L levels order)) := by
  have hinv := (matchLoop L stops symbol takerSide order stamp).exit_invariant
    (I := fun st => LevelsOk P (L.elements st.levels) ∧
      Conserves order (matchStart L levels order) st)
    (fun a b hab hturn => ⟨hab.1.turn hP hturn, hab.2.turn hab.1 hturn⟩)
    (s := matchStart L levels order)
  refine (hinv ⟨hok, fun ids => ?_, ?_, ?_, ?_, id⟩).2
  · exact (Int.add_zero _).symm
  · exact (Int.add_zero _).symm
  · exact nofun
  · exact nofun

end

/-! ## One call -/

variable {C : Containers buyBefore sellBefore}

def ownOrders (ob : OrderBook C) (order : OrderBookEntry) : List OrderBookEntry :=
  if order.side = "buy" then restingOrders (C.buys.elements ob.buys)
  else restingOrders (C.sells.elements ob.sells)

def restingQty (ob : OrderBook C) (id : String) : Int :=
  openTotal (fun x => x = id) (restingOrders (C.buys.elements ob.buys)) +
    openTotal (fun x => x = id) (restingOrders (C.sells.elements ob.sells))

section

variable {P : OrderBookEntry → Prop} {ob : OrderBook C}
  {order : OrderBookEntry} {stamp : Nat → Stamp}

-- Both sides, named from the point of view of one order.
theorem restingQty_eq_sides (ob : OrderBook C) (order : OrderBookEntry) (id : String) :
    restingQty ob id = openTotal (fun x => x = id) (oppositeOrders ob order) +
        openTotal (fun x => x = id) (ownOrders ob order) := by
  unfold restingQty oppositeOrders ownOrders
  split <;> omega

theorem OrderBook.Ok.restingQty_nonneg (hok : ob.Ok P) (id : String) : 0 ≤ restingQty ob id := by
  apply Int.add_nonneg
  · exact openTotal_nonneg fun x hx => (hok.buys.entry hx).filled_lt
  · exact openTotal_nonneg fun x hx => (hok.sells.entry hx).filled_lt

structure CallConserves (ob : OrderBook C) (order : OrderBookEntry) (result : MatchResult C) :
    Prop where
  opposite : ∀ ids, openTotal ids (oppositeOrders ob order) =
    openTotal ids (oppositeOrders result.book order) +
      tradedTotal makerOrderID ids result.events
  own : ∀ ids, openTotal ids (ownOrders result.book order) = openTotal ids (ownOrders ob order) +
      if ids order.orderID then max result.remainingQty 0 else 0
  taker : order.quantity = result.remainingQty +
    tradedTotal takerOrderID (fun _ => true) result.events
  takerID : ∀ e ∈ result.events, e.takerOrderID = order.orderID
  positive : ∀ e ∈ result.events, 0 < e.quantity
  remaining_nonneg : 0 ≤ order.quantity → 0 ≤ result.remainingQty

theorem oppositeOrders_recordOrder (events : List TradeExecutedEvent) (qty : Int) :
    oppositeOrders (recordOrder ob order events qty).book order = oppositeOrders ob order := by
  unfold oppositeOrders
  split
  next hside => rw [recordOrder_sells hside]
  next hside => rw [recordOrder_buys hside]

theorem CallConserves.balance {result : MatchResult C} (h : CallConserves ob order result)
    (hqty : 0 ≤ order.quantity) (id : String) :
    (if order.orderID = id then order.quantity else 0) + restingQty ob id =
      tradedTotal takerOrderID (fun x => x = id) result.events +
      tradedTotal makerOrderID (fun x => x = id) result.events +
      restingQty result.book id := by
  rw [restingQty_eq_sides ob order, restingQty_eq_sides result.book order, h.opposite, h.own,
    tradedTotal_of_party h.takerID, max_eq_left (h.remaining_nonneg hqty)]
  have htaker := h.taker
  simp only [decide_eq_true_eq]
  split <;> omega

variable [IsStrictTotalOrder Int buyBefore] [IsStrictTotalOrder Int sellBefore]

theorem openTotal_ownOrders_recordOrder (hok : ob.Ok P) (events : List TradeExecutedEvent)
    (qty : Int) (ids : String → Bool) :
    openTotal ids (ownOrders (recordOrder ob order events qty).book order) =
      openTotal ids (ownOrders ob order) + if ids order.orderID then max qty 0 else 0 := by
  unfold recordOrder ownOrders
  by_cases hpos : qty > 0
  · rw [if_pos hpos]
    unfold addOrderToBook
    by_cases hside : order.side = "buy"
    · simp only [if_pos hside]
      rw [restingOrders_appendToLevel hok.buys, openTotal_perm insertBehind_perm, openTotal_cons,
        max_eq_left hpos.le, Int.add_comm]
      simp only [openQty, Int.sub_zero]
    · simp only [if_neg hside]
      rw [restingOrders_appendToLevel hok.sells, openTotal_perm insertBehind_perm, openTotal_cons,
        max_eq_left hpos.le, Int.add_comm]
      simp only [openQty, Int.sub_zero]
  · -- nothing remains, so nothing rests
    rw [if_neg hpos, max_eq_right (not_lt.mp hpos), ite_self, Int.add_zero]

theorem matchOrder_conserves (hP : Stable P) (hok : ob.Ok P) :
    CallConserves ob order (matchOrder ob order stamp) := by
  unfold matchOrder
  by_cases hside : order.side = "buy"
  · -- a buy is matched against the asks and rests among the bids
    rw [if_pos hside]
    have h : Conserves order (matchStart C.sells ob.sells order) (matchBuyOrder ob order stamp) :=
      conserves_exit hP.sellSide hok.sells
    have hok' : OrderBook.Ok P { ob with sells := (matchBuyOrder ob order stamp).levels } :=
      ⟨hok.buys, hok.sells.exit hP.sellSide⟩
    refine ⟨fun ids => ?_, fun ids => ?_, h.taker, h.takerID, h.positive, h.remaining_nonneg⟩
    · rw [oppositeOrders_recordOrder]
      simp only [oppositeOrders, if_pos hside]
      exact h.maker ids
    · rw [openTotal_ownOrders_recordOrder hok']
      simp only [ownOrders, if_pos hside, recordOrder]
  · -- every other side is a sell
    rw [if_neg hside]
    have h : Conserves order (matchStart C.buys ob.buys order) (matchSellOrder ob order stamp) :=
      conserves_exit hP.buySide hok.buys
    have hok' : OrderBook.Ok P { ob with buys := (matchSellOrder ob order stamp).levels } :=
      ⟨hok.buys.exit hP.buySide, hok.sells⟩
    refine ⟨fun ids => ?_, fun ids => ?_, h.taker, h.takerID, h.positive, h.remaining_nonneg⟩
    · rw [oppositeOrders_recordOrder]
      simp only [oppositeOrders, if_neg hside]
      exact h.maker ids
    · rw [openTotal_ownOrders_recordOrder hok']
      simp only [ownOrders, if_neg hside, recordOrder]

end

/-! ## Orders and their resting copies -/

def Recorded (orders : String → Option OrderBookEntry) (x : OrderBookEntry) : Prop :=
  ∃ order, orders x.orderID = some order ∧ order.price = x.price ∧ order.side = x.side

theorem stable_recorded (orders : String → Option OrderBookEntry) : Stable (Recorded orders) :=
  fun _ _ _ h => h

theorem Recorded.update {orders : String → Option OrderBookEntry} {x : OrderBookEntry}
    (h : Recorded orders x) {id : String} (hne : x.orderID ≠ id) (value : Option OrderBookEntry) :
    Recorded (update orders id value) x := by
  unfold Recorded
  rwa [update_of_ne hne]

section

variable {ob : OrderBook C} {order : OrderBookEntry}
  {stamp : Nat → Stamp}

theorem matchOrder_orders : (matchOrder ob order stamp).book.orders =
    update ob.orders order.orderID (some order) := by
  have hrecord : ∀ (ob : OrderBook C) events qty, (recordOrder ob order events qty).book.orders =
      update ob.orders order.orderID (some order) := by
    intro ob events qty
    unfold recordOrder addOrderToBook
    split
    · split <;> rfl
    · rfl
  unfold matchOrder
  split
  · exact hrecord _ _ _
  · exact hrecord _ _ _

theorem recorded_matchOrder (hok : ob.Ok (Recorded ob.orders))
    (hfresh : ob.orders order.orderID = none) :
    (matchOrder ob order stamp).book.Ok (Recorded (matchOrder ob order stamp).book.orders) := by
  rw [matchOrder_orders]
  -- an id that is not on record belongs to no resting order
  have hkeep : ∀ x, Recorded ob.orders x →
      Recorded (update ob.orders order.orderID (some order)) x := by
    intro x hx
    refine hx.update (fun heq => ?_) _
    obtain ⟨o, ho, -⟩ := hx
    rw [heq, hfresh] at ho
    cases ho
  have hnew : Recorded (update ob.orders order.orderID (some order)) order :=
    ⟨order, update_self _ _ _, rfl, rfl⟩
  have hok' : ob.Ok (Recorded (update ob.orders order.orderID (some order))) :=
    ⟨hok.buys.imp fun x _ h => ⟨h.1, hkeep x h.2⟩, hok.sells.imp fun x _ h => ⟨h.1, hkeep x h.2⟩⟩
  exact hok'.matchOrder (stable_recorded _) hnew

-- A cancel of another id does not show in this id's total.
theorem openTotal_filter_cancels {price : Int} {id id' : String} (hne : id' ≠ id)
    (l : List OrderBookEntry) :
    openTotal (fun x => x = id') (l.filter fun x => !cancels price id x) =
      openTotal (fun x => x = id') l := by
  have hgone : openTotal (fun x => x = id')
      (l.filter fun x => !(fun x => !cancels price id x) x) = 0 := by
    apply openTotal_eq_zero
    intro x hx
    have hc := (mem_filter.mp hx).2
    simp only [Bool.not_not, cancels, Bool.and_eq_true, decide_eq_true_eq] at hc
    rw [hc.2]
    simpa using Ne.symm hne
  rw [openTotal_filter_add (fun x => !cancels price id x) l, hgone, Int.add_zero]

theorem not_mem_removeFromLevel {L : Levels before} [IsStrictTotalOrder Int before]
    {P : OrderBookEntry → Prop} {side : L.Carrier} {orders : String → Option OrderBookEntry}
    {id : String} (hok : LevelsOk (fun x => P x ∧ Recorded orders x) (L.elements side))
    (horder : orders id = some order) {x : OrderBookEntry}
    (hx : x ∈ restingOrders (L.elements (removeFromLevel L side order.price id))) :
    x.orderID ≠ id := by
  rw [restingOrders_removeFromLevel hok] at hx
  obtain ⟨hmem, hkeep⟩ := mem_filter.mp hx
  rintro rfl
  -- the record fixes the price, so the order sat in the level that was filtered
  obtain ⟨o, ho, hprice, -⟩ := (hok.entry hmem).holds.2
  rw [horder] at ho
  cases ho
  simp [cancels, hprice] at hkeep

structure CancelSpec (ob : OrderBook C) (id : String) (ob' : OrderBook C) : Prop where
  ok : ob'.Ok (Recorded ob'.orders)
  gone : restingQty ob' id = 0
  others : ∀ id', id' ≠ id → restingQty ob' id' = restingQty ob id'
  orders : ob'.orders = update ob.orders id none

/-- The two sides of a cancel: what is left carries no order of that id, so the records of what is
left survive the deletion of the order. -/
theorem cancelSpec_of_not_mem {ob' : OrderBook C} {id : String} (hok : ob'.Ok (Recorded ob.orders))
    (horders : ob'.orders = update ob.orders id none)
    (hbuys : ∀ x ∈ restingOrders (C.buys.elements ob'.buys), x.orderID ≠ id)
    (hsells : ∀ x ∈ restingOrders (C.sells.elements ob'.sells), x.orderID ≠ id)
    (hothers : ∀ id', id' ≠ id → restingQty ob' id' = restingQty ob id') :
    CancelSpec ob id ob' := by
  refine ⟨?_, ?_, hothers, horders⟩
  · rw [horders]
    exact ⟨hok.buys.imp fun x hx h => ⟨h.1, h.2.update (hbuys x hx) _⟩,
      hok.sells.imp fun x hx h => ⟨h.1, h.2.update (hsells x hx) _⟩⟩
  · unfold restingQty
    rw [openTotal_eq_zero fun x hx => decide_eq_false (hbuys x hx),
      openTotal_eq_zero fun x hx => decide_eq_false (hsells x hx)]
    rfl

variable [IsStrictTotalOrder Int buyBefore] [IsStrictTotalOrder Int sellBefore]

theorem cancelOrder_spec {ob' : OrderBook C} {id : String} (hok : ob.Ok (Recorded ob.orders))
    (h : cancelOrder ob id = .ok ob') : CancelSpec ob id ob' := by
  obtain ⟨order, horder, -, ⟨hside, rfl⟩ | ⟨hside, rfl⟩⟩ := cancelOrder_eq_ok h
  · refine cancelSpec_of_not_mem ⟨hok.buys.removeFromLevel, hok.sells⟩ rfl
      (fun x hx => not_mem_removeFromLevel hok.buys horder hx) (fun x hx heq => ?_)
      fun id' hne => ?_
    · -- the record says which side the order rests on, so it is not among the asks
      obtain ⟨hsell, o, ho, -, hs⟩ := (hok.sells.entry hx).holds
      rw [heq, horder] at ho
      cases ho
      exact hsell (hs ▸ hside)
    · unfold restingQty
      rw [restingOrders_removeFromLevel hok.buys, openTotal_filter_cancels hne]
  · refine cancelSpec_of_not_mem ⟨hok.buys, hok.sells.removeFromLevel⟩ rfl (fun x hx heq => ?_)
      (fun x hx => not_mem_removeFromLevel hok.sells horder hx) fun id' hne => ?_
    · -- and here not among the bids
      obtain ⟨hbuy, o, ho, -, hs⟩ := (hok.buys.entry hx).holds
      rw [heq, horder] at ho
      cases ho
      exact hside (hs ▸ hbuy)
    · unfold restingQty
      rw [restingOrders_removeFromLevel hok.sells, openTotal_filter_cancels hne]

end

/-! ## Whole runs -/

/-- A run with its history: all trades, and per id what successful cancels took off the book. -/
structure Ledger (C : Containers buyBefore sellBefore) where
  book : OrderBook C
  trades : List TradeExecutedEvent
  cancelled : String → Int

namespace Ledger

def apply (s : Ledger C) : BookCall → Ledger C
  | .matchOrder order stamp =>
    let result := CexHertz.matchOrder s.book order stamp
    { s with book := result.book, trades := s.trades ++ result.events }
  | .cancelOrder orderID =>
    match CexHertz.cancelOrder s.book orderID with
    | .error _ => s
    | .ok ob =>
      let removed := restingQty s.book orderID - restingQty ob orderID
      { s with
        book := ob
        cancelled := update s.cancelled orderID (s.cancelled orderID + removed) }

def run (C : Containers buyBefore sellBefore) (symbol : String) (calls : List BookCall) :
    Ledger C :=
  calls.foldl apply ⟨newOrderBook C symbol, [], fun _ => 0⟩

def takerQty (s : Ledger C) (id : String) : Int :=
  tradedTotal takerOrderID (fun x => x = id) s.trades

def makerQty (s : Ledger C) (id : String) : Int :=
  tradedTotal makerOrderID (fun x => x = id) s.trades

end Ledger

open Ledger

def BookCall.submittedID : BookCall → Option String
  | .matchOrder order _ => some order.orderID
  | .cancelOrder _ => none

def BookCall.submittedQty (id : String) : BookCall → Int
  | .matchOrder order _ => if order.orderID = id then order.quantity else 0
  | .cancelOrder _ => 0

def submittedIDs (calls : List BookCall) : List String := calls.filterMap BookCall.submittedID

def submittedQty (calls : List BookCall) (id : String) : Int :=
  (calls.map (BookCall.submittedQty id)).sum

theorem submittedQty_of_not_mem {calls : List BookCall} {id : String}
    (h : id ∉ submittedIDs calls) : submittedQty calls id = 0 := by
  apply sum_eq_zero
  intro q hq
  obtain ⟨call, hcall, rfl⟩ := mem_map.mp hq
  cases call with
  | cancelOrder => rfl
  | matchOrder order stamp =>
    refine if_neg fun heq => h ?_
    exact mem_filterMap.mpr ⟨_, hcall, congrArg some heq⟩

theorem submittedQty_eq {calls : List BookCall} (hdistinct : (submittedIDs calls).Nodup)
    {order : OrderBookEntry} {stamp : Nat → Stamp} (hmem : .matchOrder order stamp ∈ calls) :
    submittedQty calls order.orderID = order.quantity := by
  induction calls with
  | nil => cases hmem
  | cons call rest ih =>
    have hcons : submittedQty (call :: rest) order.orderID =
        call.submittedQty order.orderID + submittedQty rest order.orderID := sum_cons
    rw [hcons]
    rcases mem_cons.mp hmem with rfl | hrestmem
    · have hnot : order.orderID ∉ submittedIDs rest := (nodup_cons.mp hdistinct).1
      rw [submittedQty_of_not_mem hnot, BookCall.submittedQty, if_pos rfl, Int.add_zero]
    · cases call with
      | cancelOrder id => rw [ih hdistinct hrestmem, BookCall.submittedQty, Int.zero_add]
      | matchOrder first stamp' =>
        obtain ⟨hnot, hrest⟩ := nodup_cons.mp hdistinct
        have hne : first.orderID ≠ order.orderID := by
          intro heq
          exact hnot (mem_filterMap.mpr ⟨_, hrestmem, congrArg some heq.symm⟩)
        rw [ih hrest hrestmem, BookCall.submittedQty, if_neg hne, Int.zero_add]

structure Accounted (calls : List BookCall) (s : Ledger C) : Prop where
  ok : s.book.Ok (Recorded s.book.orders)
  known : ∀ id, s.book.orders id ≠ none → id ∈ submittedIDs calls
  balance : ∀ id, submittedQty calls id =
    s.takerQty id + s.makerQty id + restingQty s.book id + s.cancelled id
  positive : ∀ e ∈ s.trades, 0 < e.quantity
  cancelled_nonneg : ∀ id, 0 ≤ s.cancelled id

section

variable {calls : List BookCall} {s : Ledger C}

theorem submittedQty_append (calls : List BookCall) (call : BookCall) (id : String) :
    submittedQty (calls ++ [call]) id = submittedQty calls id + call.submittedQty id := by
  simp [submittedQty]

theorem submittedIDs_append (calls : List BookCall) (call : BookCall) :
    submittedIDs (calls ++ [call]) = submittedIDs calls ++ call.submittedID.toList := by
  cases call <;> simp [submittedIDs, BookCall.submittedID]

theorem accounted_new (symbol : String) :
    Accounted [] (⟨newOrderBook C symbol, [], fun _ => 0⟩ : Ledger C) := by
  refine ⟨newOrderBook_ok symbol, fun _ h => absurd rfl h, fun id => ?_, fun _ h => ?_,
    fun _ => le_refl _⟩
  · have hrest : restingQty (newOrderBook C symbol) id = 0 := by
      simp only [restingQty, newOrderBook, C.buys.elements_new, C.sells.elements_new]
      rfl
    rw [hrest]
    rfl
  · cases h

variable [IsStrictTotalOrder Int buyBefore] [IsStrictTotalOrder Int sellBefore]

theorem Accounted.matchOrder (h : Accounted calls s) {order : OrderBookEntry}
    {stamp : Nat → Stamp} (hfresh : order.orderID ∉ submittedIDs calls)
    (hqty : 0 ≤ order.quantity) :
    Accounted (calls ++ [.matchOrder order stamp]) (s.apply (.matchOrder order stamp)) := by
  have hnone : s.book.orders order.orderID = none := by
    by_contra hne
    exact hfresh (h.known _ hne)
  have hcall : CallConserves s.book order (CexHertz.matchOrder s.book order stamp) :=
    matchOrder_conserves (stable_recorded _) h.ok
  refine ⟨recorded_matchOrder h.ok hnone, fun id hid => ?_, fun id => ?_, fun e he => ?_,
    h.cancelled_nonneg⟩
  · rw [submittedIDs_append]
    change (CexHertz.matchOrder s.book order stamp).book.orders id ≠ none at hid
    rw [matchOrder_orders] at hid
    by_cases heq : id = order.orderID
    · rw [heq]
      exact mem_append_right _ mem_cons_self
    · rw [update_of_ne heq] at hid
      exact mem_append_left _ (h.known id hid)
  · -- the call adds the same to both sides of the balance
    have hold := h.balance id
    have hnew := hcall.balance hqty id
    simp only [takerQty, makerQty] at hold ⊢
    simp only [submittedQty_append, BookCall.submittedQty, apply, tradedTotal_append]
    omega
  · rcases mem_append.mp he with he | he
    · exact h.positive e he
    · exact hcall.positive e he

theorem Accounted.cancelOrder (h : Accounted calls s) (orderID : String) :
    Accounted (calls ++ [.cancelOrder orderID]) (s.apply (.cancelOrder orderID)) := by
  have hids : submittedIDs (calls ++ [.cancelOrder orderID]) = submittedIDs calls := by
    rw [submittedIDs_append]
    exact append_nil _
  have hqty : ∀ id, submittedQty (calls ++ [.cancelOrder orderID]) id = submittedQty calls id := by
    intro id
    rw [submittedQty_append]
    exact Int.add_zero _
  cases hc : CexHertz.cancelOrder s.book orderID with
  | error e =>
    simp only [apply, hc]
    exact ⟨h.ok, hids ▸ h.known, fun id => (hqty id).trans (h.balance id), h.positive,
      h.cancelled_nonneg⟩
  | ok ob =>
    simp only [apply, hc]
    have hspec := cancelOrder_spec h.ok hc
    refine ⟨hspec.ok, fun id hid => ?_, fun id => ?_, h.positive, fun id => ?_⟩
    · rw [hids]
      apply h.known
      rw [hspec.orders] at hid
      by_cases heq : id = orderID
      · rw [heq, update_self] at hid
        exact absurd rfl hid
      · rwa [update_of_ne heq] at hid
    · -- what the cancel took off the book is booked as cancelled
      rw [hqty, h.balance]
      simp only [takerQty, makerQty]
      by_cases heq : id = orderID
      · rw [heq, update_self]
        omega
      · rw [update_of_ne heq, hspec.others id heq]
    · dsimp only
      by_cases heq : id = orderID
      · have hrest := h.ok.restingQty_nonneg orderID
        have hcancelled := h.cancelled_nonneg orderID
        rw [heq, update_self, hspec.gone]
        omega
      · rw [update_of_ne heq]
        exact h.cancelled_nonneg id

-- By induction from the back: the calls so far say which ids are taken.
theorem accounted_run (symbol : String) (hdistinct : (submittedIDs calls).Nodup)
    (hqty : ∀ order stamp, .matchOrder order stamp ∈ calls → 0 ≤ order.quantity) :
    Accounted calls (run C symbol calls) := by
  induction calls using List.reverseRecOn with
  | nil => exact accounted_new symbol
  | append_singleton calls call ih =>
    rw [submittedIDs_append, nodup_append] at hdistinct
    have h := ih hdistinct.1 fun order stamp hmem =>
      hqty order stamp (mem_append_left _ hmem)
    unfold run at h ⊢
    rw [foldl_append]
    cases call with
    | matchOrder order stamp =>
      refine h.matchOrder (fun hmem => ?_) (hqty order stamp (by simp))
      exact hdistinct.2.2 _ hmem _ mem_cons_self rfl
    | cancelOrder orderID => exact h.cancelOrder orderID

end

/-- The accounts of every run with distinct ids and non-negative quantities. -/
theorem order_lifetime_accounting (C : Containers buyBefore sellBefore)
    [IsStrictTotalOrder Int buyBefore] [IsStrictTotalOrder Int sellBefore] (symbol : String)
    (calls : List BookCall) (hdistinct : (submittedIDs calls).Nodup)
    (hqty : ∀ order stamp, .matchOrder order stamp ∈ calls → 0 ≤ order.quantity) :
    let s := run C symbol calls
    (∀ order stamp, .matchOrder order stamp ∈ calls →
      order.quantity = s.takerQty order.orderID + s.makerQty order.orderID +
        restingQty s.book order.orderID + s.cancelled order.orderID ∧
      s.takerQty order.orderID + s.makerQty order.orderID ≤ order.quantity) ∧
    (∀ e ∈ s.trades, 0 < e.quantity) ∧
    EveryMatch (newOrderBook C symbol) calls fun ob order stamp =>
      openTotal (fun _ => true) (oppositeOrders ob order) -
          openTotal (fun _ => true) (oppositeOrders (matchOrder ob order stamp).book order) =
        ((matchOrder ob order stamp).events.map quantity).sum := by
  intro s
  have h : Accounted calls s := accounted_run symbol hdistinct hqty
  refine ⟨fun order stamp hmem => ?_, h.positive, fun pre order stamp post _ => ?_⟩
  · have hbalance := h.balance order.orderID
    rw [submittedQty_eq hdistinct hmem] at hbalance
    have hrest := h.ok.restingQty_nonneg order.orderID
    have hcancelled := h.cancelled_nonneg order.orderID
    exact ⟨hbalance, by omega⟩
  · have hok : (runCalls (newOrderBook C symbol) pre).Ok fun _ => True :=
      (newOrderBook_ok symbol).runCalls (fun _ _ _ h => h) pre fun _ _ _ => trivial
    have hcall : CallConserves (runCalls (newOrderBook C symbol) pre) order
        (matchOrder (runCalls (newOrderBook C symbol) pre) order stamp) :=
      matchOrder_conserves (fun _ _ _ h => h) hok
    have hopposite := hcall.opposite fun _ => true
    simp only [tradedTotal, filter_true] at hopposite
    omega

def askFilledThenCancelled : List BookCall :=
  [.matchOrder (.limit "a" "u1" "sell" 100 3) noStamp,
   .matchOrder (.limit "b" "u2" "buy" 100 2) noStamp,
   .cancelOrder "a"]

theorem askFilledThenCancelled_accounting :
    let s := run sortedContainers "BTC/USDT" askFilledThenCancelled
    3 = s.takerQty "a" + s.makerQty "a" + restingQty s.book "a" + s.cancelled "a" ∧
      s.takerQty "a" + s.makerQty "a" ≤ 3 := by
  have h := order_lifetime_accounting sortedContainers "BTC/USDT" askFilledThenCancelled
    (by decide) (by
      intro order stamp hmem
      simp only [askFilledThenCancelled, mem_cons, BookCall.matchOrder.injEq, reduceCtorEq,
        not_mem_nil, or_false] at hmem
      rcases hmem with ⟨rfl, -⟩ | ⟨rfl, -⟩ <;> decide)
  exact h.1 (.limit "a" "u1" "sell" 100 3) noStamp mem_cons_self

end CexHertz
