import CexHertz.Service.Reference

/-!
# `MatchOrder` is price-time matching

With containers that keep the order the `Compare` methods define, every run of the book is
simulated by the reference book of sorted arrivals: same trades, same remainder, same book.
-/

namespace CexHertz

open List Resting

variable {before : Int → Int → Prop} [DecidableRel before]

/-! ## One side -/

structure SideRefines (before : Int → Int → Prop) [DecidableRel before]
    (levels : List (Int × List OrderBookEntry)) (side : List Resting) (next : Nat) : Prop where
  sorted : restingOrders levels = (byPriority before side).map entry
  distinct : DistinctArrivals side
  arrived : ∀ r ∈ side, r.arrival < next

def fillEvent (symbol takerSide : String) (order : OrderBookEntry) (stamp : Nat → Stamp)
    (index : Nat) (f : Fill) : TradeExecutedEvent :=
  tradeEvent symbol takerSide order f.maker f.maker.price f.quantity index (stamp index)

section

variable {admits : Int → Bool} {remaining : Int} {r : Resting} {l : List Resting}

theorem consume_of_nothing_left (h : remaining ≤ 0) :
    consume admits remaining l = ⟨[], remaining, l⟩ := by
  cases l with
  | nil => rfl
  | cons r rest => rw [consume, if_pos (.inl h)]

theorem consume_of_not_admitted (h : admits r.entry.price = false) :
    consume admits remaining (r :: l) = ⟨[], remaining, r :: l⟩ := by
  rw [consume, if_pos (.inr h)]

-- The first order is used up; the rest of the list is consumed with what remains.
theorem consume_whole (hrem : 0 < remaining) (hadm : admits r.entry.price = true)
    (hle : r.entry.quantity - r.entry.filledQty ≤ remaining) :
    consume admits remaining (r :: l) =
      let next := consume admits (remaining - (r.entry.quantity - r.entry.filledQty)) l
      ⟨⟨r.entry, r.entry.quantity - r.entry.filledQty⟩ :: next.fills, next.remaining,
        next.survivors⟩ := by
  have hcond : ¬ (remaining ≤ 0 ∨ admits r.entry.price = false) := by
    rw [hadm]
    simp only [Bool.true_eq_false, or_false]
    omega
  rw [consume, if_neg hcond]
  dsimp only
  rw [min_eq_right hle, if_pos rfl]

-- The first order outlasts the taker, and nothing behind it is touched.
theorem consume_part (hrem : 0 < remaining) (hadm : admits r.entry.price = true)
    (hlt : remaining < r.entry.quantity - r.entry.filledQty) :
    consume admits remaining (r :: l) = ⟨[⟨r.entry, remaining⟩], 0,
        { r with entry := { r.entry with filledQty := r.entry.filledQty + remaining } } :: l⟩ := by
  have hcond : ¬ (remaining ≤ 0 ∨ admits r.entry.price = false) := by
    rw [hadm]
    simp only [Bool.true_eq_false, or_false]
    omega
  rw [consume, if_neg hcond]
  dsimp only
  rw [min_eq_left hlt.le, if_neg hlt.ne, Int.sub_self, consume_of_nothing_left (le_refl _)]

end

section

variable {L : Levels before} {stops admits : Int → Bool} {symbol takerSide : String}
  {order : OrderBookEntry} {stamp : Nat → Stamp} {P : OrderBookEntry → Prop}
variable {levels : L.Carrier} {side : List Resting} {next : Nat}

/-- What the reference says about a loop started in `st` against `l`, and stopped in `out`. -/
structure ConsumedTo (admits : Int → Bool) (event : Nat → Fill → TradeExecutedEvent)
    (st : MatchState L) (l : List Resting) (out : MatchState L) : Prop where
  levels : restingOrders (L.elements out.levels) =
    (consume admits st.remainingQty l).survivors.map entry
  remaining : out.remainingQty = (consume admits st.remainingQty l).remaining
  events : out.events = st.events ++ (consume admits st.remainingQty l).fills.mapIdx
    fun i f => event (st.events.length + i) f

theorem ConsumedTo.events_of_start {event : Nat → Fill → TradeExecutedEvent} {l : List Resting}
    {out : MatchState L} (h : ConsumedTo admits event (matchStart L levels order) l out) :
    out.events = (consume admits order.quantity l).fills.mapIdx event := by
  simpa [matchStart] using h.events

theorem consume_of_stopped (hadmits : ∀ p, admits p = !stops p) {st : MatchState L}
    {l : List Resting} (hok : LevelsOk P (L.elements st.levels))
    (hl : restingOrders (L.elements st.levels) = l.map entry)
    (hstop : matchBody L stops symbol takerSide order stamp st = none) :
    consume admits st.remainingQty l = ⟨[], st.remainingQty, l⟩ := by
  rcases matchBody_eq_none hstop with h | h | ⟨price, queue, tl, hel, h⟩
  · exact consume_of_nothing_left h
  · rw [h] at hl
    rw [map_eq_nil_iff.mp hl.symm]
    rfl
  · have hfirst := hok _ (hel ▸ mem_cons_self)
    cases queue with
    | nil => exact absurd rfl hfirst.nonempty
    | cons maker rest =>
      have hstops : stops price = true := h.resolve_right (cons_ne_nil _ _)
      rw [hel, restingOrders_cons] at hl
      obtain ⟨r, l', rfl, hr, -⟩ := map_eq_cons_iff.mp hl.symm
      apply consume_of_not_admitted
      have hprice := (hfirst.entries maker mem_cons_self).price_eq
      rw [hr, hprice, hadmits, hstops, Bool.not_true]

theorem matchLoop_consumedTo (hP : Stable P) (hadmits : ∀ p, admits p = !stops p)
    (st : MatchState L) (l : List Resting) (hok : LevelsOk P (L.elements st.levels))
    (hl : restingOrders (L.elements st.levels) = l.map entry) :
    ConsumedTo admits (fillEvent symbol takerSide order stamp) st l
      ((matchLoop L stops symbol takerSide order stamp).exit st) := by
  -- along the turns: the sorted list loses its head, or its head is filled and the loop is over
  induction st using (matchLoop L stops symbol takerSide order stamp).turn_induction
    generalizing l with
  | stop st hstop =>
    rw [Loop.Bounded.exit_of_none _ hstop]
    have hsame := consume_of_stopped hadmits hok hl hstop
    exact ⟨by rw [hsame]; exact hl, by rw [hsame], by rw [hsame]; simp⟩
  | turn st st' hturn ih =>
    rw [Loop.Bounded.exit_of_some _ hturn]
    have hok' := hok.turn hP hturn
    obtain ⟨price, maker, rest, tl, hel, hrem, hstop, hst⟩ := matchBody_eq_some hturn
    have hmaker := (hok _ (hel ▸ mem_cons_self)).entries maker mem_cons_self
    rw [hel, restingOrders_cons] at hl
    obtain ⟨r, l', rfl, hr, hl'⟩ := map_eq_cons_iff.mp hl.symm
    have hprice : r.entry.price = price := by rw [hr]; exact hmaker.price_eq
    have hadm : admits r.entry.price = true := by rw [hprice, hadmits, hstop, Bool.not_false]
    have hopen := hmaker.filled_lt
    rcases fillMaker_cases hel hrem hst with ⟨hle, -⟩ | ⟨-, hle, hlev, hleft, hev⟩ |
      ⟨hlt, hlev, hleft, hev⟩
    · omega
    · -- the maker is consumed whole and the loop goes on with the rest
      obtain ⟨hlevels, hremaining, hevents⟩ :=
        ih l' hok' (by rw [hlev, restingOrders_withQueue]; exact hl'.symm)
      have hwhole := consume_whole (l := l') hrem hadm (by rw [hr]; exact hle)
      rw [hr] at hwhole
      rw [hleft] at hlevels hremaining hevents
      refine ⟨by rw [hwhole]; exact hlevels, by rw [hwhole]; exact hremaining, ?_⟩
      rw [hwhole, hevents, hev, mapIdx_cons, append_assoc, singleton_append]
      simp only [length_append, length_singleton, Nat.add_zero, fillEvent,
        hmaker.price_eq, Nat.add_assoc, Nat.add_comm 1]
    · -- the taker is used up, so the next turn stops with the maker still in front
      have hpart := consume_part (l := l') hrem hadm (by rw [hr]; exact hlt)
      rw [hr] at hpart
      let r' : Resting :=
        { r with entry := { maker with filledQty := maker.filledQty + st.remainingQty } }
      obtain ⟨hlevels, hremaining, hevents⟩ :=
        ih (r' :: l') hok' (by rw [hlev, restingOrders_cons, map_cons, hl']; rfl)
      have hnone : consume admits st'.remainingQty (r' :: l') =
        ⟨[], st'.remainingQty, r' :: l'⟩ := consume_of_nothing_left hleft.le
      rw [hnone] at hlevels hremaining hevents
      refine ⟨by rw [hpart]; exact hlevels, by rw [hpart, hremaining, hleft], ?_⟩
      rw [hpart, hevents, hev]
      simp [fillEvent, hmaker.price_eq]

variable [IsStrictTotalOrder Int before]

theorem SideRefines.consume (h : SideRefines before (L.elements levels) side next)
    {out : MatchState L} {qty : Int} {event : Nat → Fill → TradeExecutedEvent}
    {events : List TradeExecutedEvent}
    (hout : ConsumedTo admits event ⟨levels, qty, events⟩ (byPriority before side) out) :
    SideRefines before (L.elements out.levels)
      (CexHertz.consume admits qty (byPriority before side)).survivors next := by
  have hsub := consume_survivors_arrivals admits qty (byPriority before side)
  have hperm : ((byPriority before side).map arrival).Perm (side.map arrival) :=
    (byPriority_perm side).map _
  have hdistinct : DistinctArrivals
      (CexHertz.consume admits qty (byPriority before side)).survivors :=
    (hperm.nodup_iff.mpr h.distinct).sublist hsub
  refine ⟨?_, hdistinct, ?_⟩
  · rw [byPriority_eq (.refl _) (consume_survivors_sorted _ _ (pairwise_byPriority side)) hdistinct]
    exact hout.levels
  · intro r hr
    have hmem := hperm.mem_iff.mp (hsub.subset (mem_map_of_mem hr))
    obtain ⟨r', hr', heq⟩ := mem_map.mp hmem
    rw [← heq]
    exact h.arrived r' hr'

theorem SideRefines.append {qty : Int} (hok : LevelsOk P (L.elements levels))
    (h : SideRefines before (L.elements levels) side next) :
    SideRefines before (L.elements (appendToLevel L levels order qty))
      (side ++ [⟨next, { order with quantity := qty, filledQty := 0 }⟩]) (next + 1) := by
  refine ⟨?_, ?_, ?_⟩
  · rw [restingOrders_appendToLevel hok, byPriority_append h.distinct h.arrived,
      map_insertBehind entry OrderBookEntry.price fun _ => rfl, h.sorted]
  · exact distinctArrivals_append h.distinct h.arrived
  · intro r hr
    rcases mem_append.mp hr with hr | hr
    · exact Nat.lt_succ_of_lt (h.arrived r hr)
    · rw [mem_singleton.mp hr]
      exact Nat.lt_succ_self _

theorem SideRefines.filter {price : Int} {orderID : String} (hok : LevelsOk P (L.elements levels))
    (h : SideRefines before (L.elements levels) side next) :
    SideRefines before (L.elements (removeFromLevel L levels price orderID))
      (side.filter fun r => !cancels price orderID r.entry) next := by
  refine ⟨?_, h.distinct.sublist (filter_sublist.map _), ?_⟩
  · rw [restingOrders_removeFromLevel hok, byPriority_filter _ h.distinct, h.sorted, filter_map]
    rfl
  · exact fun r hr => h.arrived r (mem_of_mem_filter hr)

omit [IsStrictTotalOrder Int before] in
theorem SideRefines.later {levels : List (Int × List OrderBookEntry)}
    (h : SideRefines before levels side next) :
    SideRefines before levels side (next + 1) :=
  ⟨h.sorted, h.distinct, fun r hr => Nat.lt_succ_of_lt (h.arrived r hr)⟩

end

/-! ## The whole book -/

/-- Containers in the order the `Compare` methods define: best level in front. -/
abbrev CompareContainers :=
  Containers priceComparatorDesc.compareBefore priceComparatorAsc.compareBefore

-- The two comparators are the two orders on prices, read through `Compare`.
theorem byPriority_congr {r s : Int → Int → Prop} [DecidableRel r] [DecidableRel s]
    (h : ∀ a b, r a b ↔ s a b) (side : List Resting) : byPriority r side = byPriority s side := by
  have heq : noLater r = noLater s := by
    funext a b
    simp only [noLater, h]
  unfold byPriority
  rw [heq]

theorem byPriority_asks (side : List Resting) :
    byPriority priceComparatorAsc.compareBefore side = byPriority (· < ·) side :=
  byPriority_congr (fun _ _ => priceComparatorAsc_compareBefore) side

theorem byPriority_bids (side : List Resting) :
    byPriority priceComparatorDesc.compareBefore side = byPriority (· > ·) side :=
  byPriority_congr (fun _ _ => priceComparatorDesc_compareBefore) side

structure Refines {C : CompareContainers} (ob : OrderBook C) (ref : RefBook) : Prop where
  ok : ob.Ok fun _ => True
  bids : SideRefines priceComparatorDesc.compareBefore (C.buys.elements ob.buys) ref.bids
    ref.nextArrival
  asks : SideRefines priceComparatorAsc.compareBefore (C.sells.elements ob.sells) ref.asks
    ref.nextArrival
  orders : ob.orders = ref.orders

section

variable {C : CompareContainers} {ob : OrderBook C} {ref : RefBook} {order : OrderBookEntry}
  {stamp : Nat → Stamp}

theorem stable_true : Stable fun _ => True := fun _ _ _ h => h

theorem sideRefines_nil (next : Nat) : SideRefines before [] [] next :=
  ⟨by simp [restingOrders, byPriority], nodup_nil, nofun⟩

theorem refines_new (symbol : String) : Refines (newOrderBook C symbol) RefBook.new := by
  refine ⟨newOrderBook_ok symbol, ?_, ?_, rfl⟩
  · change SideRefines _ (C.buys.elements C.buys.new) [] 0
    rw [C.buys.elements_new]
    exact sideRefines_nil 0
  · change SideRefines _ (C.sells.elements C.sells.new) [] 0
    rw [C.sells.elements_new]
    exact sideRefines_nil 0

-- `c` is what the reference consumed; the book comes from the loop.
theorem Refines.settle (h : Refines ob ref) (order : OrderBookEntry)
    (events : List TradeExecutedEvent) (c : Consumed) :
    Refines (recordOrder ob order events c.remaining).book (ref.settle order c).book := by
  have hok : (recordOrder ob order events c.remaining).book.Ok fun _ => True :=
    h.ok.recordOrder stable_true trivial
  unfold RefBook.settle
  unfold recordOrder at hok ⊢
  by_cases hpos : c.remaining > 0
  · simp only [if_pos hpos] at hok ⊢
    unfold RefBook.rest
    unfold addOrderToBook at hok ⊢
    by_cases hside : order.side = "buy"
    · simp only [if_pos hside] at hok ⊢
      exact ⟨hok, h.bids.append h.ok.buys, h.asks.later, by rw [h.orders]⟩
    · simp only [if_neg hside] at hok ⊢
      exact ⟨hok, h.bids.later, h.asks.append h.ok.sells, by rw [h.orders]⟩
  · simp only [if_neg hpos] at hok ⊢
    exact ⟨hok, h.bids, h.asks, by rw [h.orders]⟩

def takerSide (order : OrderBookEntry) : String := if order.side = "buy" then "buy" else "sell"

theorem Refines.matchOrder (h : Refines ob ref) (order : OrderBookEntry) (stamp : Nat → Stamp) :
    Refines (matchOrder ob order stamp).book (ref.matchOrder order).book ∧
    (matchOrder ob order stamp).events = (ref.matchOrder order).fills.mapIdx
      (fillEvent ob.symbol (takerSide order) order stamp) ∧
    (matchOrder ob order stamp).remainingQty = (ref.matchOrder order).remaining := by
  unfold CexHertz.matchOrder RefBook.matchOrder takerSide
  by_cases hside : order.side = "buy"
  · simp only [if_pos hside]
    rw [← byPriority_asks]
    have hout : ConsumedTo (fun ask => decide (ask ≤ order.price))
        (fillEvent ob.symbol "buy" order stamp) (matchStart C.sells ob.sells order)
        (byPriority priceComparatorAsc.compareBefore ref.asks) (matchBuyOrder ob order stamp) := by
      apply matchLoop_consumedTo stable_true.sellSide
      · exact fun p => by simp only [← decide_not, not_lt]
      · exact h.ok.sells
      · exact h.asks.sorted
    refine ⟨?_, ?_, hout.remaining⟩
    · rw [hout.remaining]
      apply Refines.settle
      exact ⟨⟨h.ok.buys, h.ok.sells.exit stable_true.sellSide⟩, h.bids, h.asks.consume hout,
        h.orders⟩
    · exact hout.events_of_start
  · simp only [if_neg hside]
    rw [← byPriority_bids]
    have hout : ConsumedTo (fun bid => decide (order.price ≤ bid))
        (fillEvent ob.symbol "sell" order stamp) (matchStart C.buys ob.buys order)
        (byPriority priceComparatorDesc.compareBefore ref.bids)
        (matchSellOrder ob order stamp) := by
      apply matchLoop_consumedTo stable_true.buySide
      · exact fun p => by simp only [gt_iff_lt, ← decide_not, not_lt]
      · exact h.ok.buys
      · exact h.bids.sorted
    refine ⟨?_, ?_, hout.remaining⟩
    · rw [hout.remaining]
      apply Refines.settle
      exact ⟨⟨h.ok.buys.exit stable_true.buySide, h.ok.sells⟩, h.bids.consume hout, h.asks,
        h.orders⟩
    · exact hout.events_of_start

theorem Refines.cancelOrder (h : Refines ob ref) (orderID : String) :
    Refines ((cancelOrder ob orderID).toOption.getD ob) (ref.cancelOrder orderID) := by
  unfold CexHertz.cancelOrder RefBook.cancelOrder
  rw [← h.orders]
  cases ho : ob.orders orderID with
  | none => exact h
  | some order =>
    by_cases hfilled : order.filledQty > 0
    · simp only [if_pos hfilled]
      exact h
    · simp only [if_neg hfilled]
      by_cases hside : order.side = "buy"
      · simp only [if_pos hside]
        exact ⟨⟨h.ok.buys.removeFromLevel, h.ok.sells⟩, h.bids.filter h.ok.buys, h.asks, rfl⟩
      · simp only [if_neg hside]
        exact ⟨⟨h.ok.buys, h.ok.sells.removeFromLevel⟩, h.bids, h.asks.filter h.ok.sells, rfl⟩

theorem Refines.apply (h : Refines ob ref) (call : BookCall) :
    Refines (call.apply ob) (ref.apply call) := by
  cases call with
  | matchOrder order stamp => exact (h.matchOrder order stamp).1
  | cancelOrder orderID => exact h.cancelOrder orderID

theorem Refines.runCalls (h : Refines ob ref) (calls : List BookCall) :
    Refines (runCalls ob calls) (calls.foldl RefBook.apply ref) := by
  induction calls generalizing ob ref with
  | nil => exact h
  | cons call rest ih => exact ih (h.apply call)

/-- Corresponding books have the same levels, the reference's being its sorted orders grouped by
price. -/
theorem Refines.levels (h : Refines ob ref) :
    C.buys.elements ob.buys = levelsOf ((byPriority (· > ·) ref.bids).map entry) ∧
    C.sells.elements ob.sells = levelsOf ((byPriority (· < ·) ref.asks).map entry) := by
  constructor
  · rw [← byPriority_bids, ← h.bids.sorted, h.ok.buys.levelsOf_restingOrders (C.buys.ascending _)]
  · rw [← byPriority_asks, ← h.asks.sorted, h.ok.sells.levelsOf_restingOrders (C.sells.ascending _)]

end

/-- `MatchOrder` on every reachable book, against the reference book of the same calls: the loops
halt, the trades are the reference's fills at the makers' prices, the remainders are equal, and so
are the resulting books. -/
theorem matchOrder_refines_priceTime (C : CompareContainers) (symbol : String)
    (calls : List BookCall) (order : OrderBookEntry) (stamp : Nat → Stamp) :
    let ob := runCalls (newOrderBook C symbol) calls
    let result := matchOrder ob order stamp
    let reference := (RefBook.run calls).matchOrder order
    (order.side = "buy" → Loop.Halts (matchBuyLoop C ob.symbol order stamp).body
      (matchStart C.sells ob.sells order) (matchBuyOrder ob order stamp)) ∧
    (order.side ≠ "buy" → Loop.Halts (matchSellLoop C ob.symbol order stamp).body
      (matchStart C.buys ob.buys order) (matchSellOrder ob order stamp)) ∧
    result.events = reference.fills.mapIdx
      (fillEvent ob.symbol (takerSide order) order stamp) ∧
    result.remainingQty = reference.remaining ∧
    C.buys.elements result.book.buys =
      levelsOf ((byPriority (· > ·) reference.book.bids).map entry) ∧
    C.sells.elements result.book.sells =
      levelsOf ((byPriority (· < ·) reference.book.asks).map entry) ∧
    result.book.orders = reference.book.orders := by
  intro ob result reference
  have hbook : Refines ob (RefBook.run calls) := (refines_new symbol).runCalls calls
  obtain ⟨hnext, hevents, hremaining⟩ := hbook.matchOrder order stamp
  exact ⟨fun _ => Loop.Bounded.halts _ _, fun _ => Loop.Bounded.halts _ _, hevents, hremaining,
    hnext.levels.1, hnext.levels.2, hnext.orders⟩

end CexHertz
