import CexHertz.Service.OrderBook

/-!
# Replaying submitted orders

Matching never reads the submit time, the sequence number or the stamps of trades. So two books
given the same orders at different times trade alike, and a book can be rebuilt from the
`OrderSubmittedEvent`s of the log.
-/

namespace CexHertz

open List OrderBookEntry TradeExecutedEvent

/-! ## What matching reads -/

def OrderBookEntry.timeless (x : OrderBookEntry) : OrderBookEntry :=
  { x with submitTime := 0, sequenceNum := 0 }

def timelessLevels (levels : List (Int × List OrderBookEntry)) : List (Int × List OrderBookEntry) :=
  levels.map fun level => (level.1, level.2.map timeless)

def TradeExecutedEvent.key (t : TradeExecutedEvent) : String × String × Int × Int :=
  (t.makerOrderID, t.takerOrderID, t.price, t.quantity)

variable {before : Int → Int → Prop} [DecidableRel before] {L : Levels before}

structure SameMatch (st st₀ : MatchState L) : Prop where
  levels : timelessLevels (L.elements st.levels) = timelessLevels (L.elements st₀.levels)
  remainingQty : st.remainingQty = st₀.remainingQty
  events : st.events.map key = st₀.events.map key

theorem SameMatch.symm {st st₀ : MatchState L} (h : SameMatch st st₀) : SameMatch st₀ st :=
  ⟨h.levels.symm, h.remainingQty.symm, h.events.symm⟩

-- The first order of one side, found on the other.
theorem timelessLevels_cons {levels : List (Int × List OrderBookEntry)} {price : Int}
    {maker : OrderBookEntry} {rest : List OrderBookEntry} {tl : List (Int × List OrderBookEntry)}
    (h : timelessLevels ((price, maker :: rest) :: tl) = timelessLevels levels) :
    ∃ maker₀ rest₀ tl₀, levels = (price, maker₀ :: rest₀) :: tl₀ ∧
      maker.timeless = maker₀.timeless ∧
      rest.map timeless = rest₀.map timeless ∧
      timelessLevels tl = timelessLevels tl₀ := by
  unfold timelessLevels at h
  cases levels with
  | nil => cases h
  | cons level tl₀ =>
    obtain ⟨price₀, queue₀⟩ := level
    simp only [map_cons, List.cons.injEq, Prod.mk.injEq] at h
    obtain ⟨⟨rfl, hqueue⟩, htl⟩ := h
    cases queue₀ with
    | nil => cases hqueue
    | cons maker₀ rest₀ =>
      rw [map_cons, List.cons.injEq] at hqueue
      exact ⟨maker₀, rest₀, tl₀, rfl, hqueue.1, hqueue.2, htl⟩

theorem timelessLevels_withQueue {price : Int} {rest rest₀ : List OrderBookEntry}
    {tl tl₀ : List (Int × List OrderBookEntry)}
    (hrest : rest.map timeless = rest₀.map timeless)
    (htl : timelessLevels tl = timelessLevels tl₀) :
    timelessLevels (withQueue price rest tl) = timelessLevels (withQueue price rest₀ tl₀) := by
  have hlength : rest.length = rest₀.length := by
    rw [← length_map timeless, hrest, length_map]
  unfold withQueue
  rw [hlength]
  split
  · exact htl
  · exact congrArg₂ List.cons (Prod.ext rfl hrest) htl

section

variable {stops : Int → Bool} {symbol takerSide : String} {order order₀ : OrderBookEntry}
  {stamp stamp₀ : Nat → Stamp} {st st' st₀ : MatchState L}

theorem SameMatch.fill (h : SameMatch st st₀) (horder : order.timeless = order₀.timeless)
    {price : Int} {maker maker₀ : OrderBookEntry} {rest rest₀ : List OrderBookEntry}
    {tl tl₀ : List (Int × List OrderBookEntry)}
    (hel : L.elements st.levels = (price, maker :: rest) :: tl)
    (hel₀ : L.elements st₀.levels = (price, maker₀ :: rest₀) :: tl₀)
    (hmaker : maker.timeless = maker₀.timeless)
    (hrest : rest.map timeless = rest₀.map timeless)
    (htl : timelessLevels tl = timelessLevels tl₀) (hrem : 0 < st.remainingQty) :
    SameMatch (fillMaker L symbol takerSide order stamp st price maker rest)
      (fillMaker L symbol takerSide order₀ stamp₀ st₀ price maker₀ rest₀) := by
  have hrem₀ : 0 < st₀.remainingQty := h.remainingQty ▸ hrem
  have hqty : maker.quantity = maker₀.quantity := congrArg (·.quantity) hmaker
  have hfilled : maker.filledQty = maker₀.filledQty := congrArg (·.filledQty) hmaker
  have hrem' := h.remainingQty
  have hkeys : ∀ qty i i₀, (st.events ++ [tradeEvent symbol takerSide order maker price qty i
        (stamp i)]).map key =
      (st₀.events ++ [tradeEvent symbol takerSide order₀ maker₀ price qty i₀
        (stamp₀ i₀)]).map key := by
    intro qty i i₀
    have hid : order.orderID = order₀.orderID := congrArg (·.orderID) horder
    have hmid : maker.orderID = maker₀.orderID := congrArg (·.orderID) hmaker
    rw [map_append, map_append, h.events, map_singleton, map_singleton]
    unfold key tradeEvent
    rw [hid, hmid]
  have hleft : timelessLevels (withQueue price rest tl) =
      timelessLevels (withQueue price rest₀ tl₀) := timelessLevels_withQueue hrest htl
  generalize hst : fillMaker L symbol takerSide order stamp st price maker rest = a
  generalize hst₀ : fillMaker L symbol takerSide order₀ stamp₀ st₀ price maker₀ rest₀ = a₀
  -- the quantities agree, so both turns take the same branch
  rcases fillMaker_cases hel hrem hst.symm with ⟨hq, hl, hr, he⟩ | ⟨hq, hq', hl, hr, he⟩ |
    ⟨hq, hl, hr, he⟩ <;>
  rcases fillMaker_cases hel₀ hrem₀ hst₀.symm with ⟨hq₀, hl₀, hr₀, he₀⟩ |
    ⟨hq₀, hq₀', hl₀, hr₀, he₀⟩ | ⟨hq₀, hl₀, hr₀, he₀⟩
  · exact ⟨by rw [hl, hl₀, hleft], by rw [hr, hr₀, hrem'], by rw [he, he₀, h.events]⟩
  · omega
  · omega
  · omega
  · refine ⟨by rw [hl, hl₀, hleft], by omega, ?_⟩
    rw [he, he₀, hqty, hfilled]
    exact hkeys _ _ _
  · omega
  · omega
  · omega
  · refine ⟨?_, by rw [hr, hr₀], ?_⟩
    · rw [hl, hl₀]
      refine congrArg₂ List.cons (Prod.ext rfl (congrArg₂ List.cons ?_ hrest)) htl
      rw [hrem', hfilled]
      exact congrArg (fun x : OrderBookEntry =>
        { x with filledQty := maker₀.filledQty + st₀.remainingQty }) hmaker
    · rw [he, he₀, hrem']
      exact hkeys _ _ _

theorem SameMatch.turn (h : SameMatch st st₀) (horder : order.timeless = order₀.timeless)
    (hturn : matchBody L stops symbol takerSide order stamp st = some st') :
    ∃ st₀', matchBody L stops symbol takerSide order₀ stamp₀ st₀ = some st₀' ∧
      SameMatch st' st₀' := by
  obtain ⟨price, maker, rest, tl, hel, hrem, hstop, rfl⟩ := matchBody_eq_some hturn
  have hlevels := h.levels
  rw [hel] at hlevels
  obtain ⟨maker₀, rest₀, tl₀, hel₀, hmaker, hrest, htl⟩ := timelessLevels_cons hlevels
  exact ⟨_, matchBody_of_first hel₀ (h.remainingQty ▸ hrem) hstop,
    h.fill horder hel hel₀ hmaker hrest htl hrem⟩

theorem SameMatch.stop (h : SameMatch st st₀) (horder : order.timeless = order₀.timeless)
    (hstop : matchBody L stops symbol takerSide order stamp st = none) :
    matchBody L stops symbol takerSide order₀ stamp₀ st₀ = none := by
  cases hturn : matchBody L stops symbol takerSide order₀ stamp₀ st₀ with
  | none => rfl
  | some st₀' =>
    obtain ⟨st', hst', -⟩ : ∃ st', matchBody L stops symbol takerSide order stamp st = some st' ∧
        SameMatch st₀' st' := h.symm.turn horder.symm hturn
    rw [hstop] at hst'
    cases hst'

def Midway (loop : Loop.Bounded (MatchState L)) (start st : MatchState L) : Prop :=
  ∃ st₀, Relation.ReflTransGen (fun a b => loop.body a = some b) start st₀ ∧ SameMatch st st₀

variable {stops₀ : Int → Bool} {start : MatchState L}

theorem Midway.turn (h : Midway (matchLoop L stops₀ symbol takerSide order₀ stamp₀) start st)
    (hstops : stops = stops₀) (horder : order.timeless = order₀.timeless)
    (hturn : matchBody L stops symbol takerSide order stamp st = some st') :
    Midway (matchLoop L stops₀ symbol takerSide order₀ stamp₀) start st' := by
  subst hstops
  obtain ⟨st₀, hreach, hsame⟩ := h
  obtain ⟨st₀', hturn₀, hsame'⟩ := hsame.turn horder hturn
  exact ⟨st₀', hreach.tail hturn₀, hsame'⟩

theorem Midway.stop (h : Midway (matchLoop L stops₀ symbol takerSide order₀ stamp₀) start st)
    (hstops : stops = stops₀) (horder : order.timeless = order₀.timeless)
    (hstop : matchBody L stops symbol takerSide order stamp st = none) :
    SameMatch st ((matchLoop L stops₀ symbol takerSide order₀ stamp₀).exit start) := by
  subst hstops
  obtain ⟨st₀, hreach, hsame⟩ := h
  rwa [((matchLoop L stops symbol takerSide order₀ stamp₀).halts start).unique
    ⟨hreach, hsame.stop horder hstop⟩]

end

/-! ## Books -/

-- A level is read and written by its price alone.
theorem timelessLevels_appendToLevel {levels levels₀ : L.Carrier} {order order₀ : OrderBookEntry}
    (qty : Int) (h : timelessLevels (L.elements levels) = timelessLevels (L.elements levels₀))
    (horder : order.timeless = order₀.timeless) :
    timelessLevels (L.elements (appendToLevel L levels order qty)) =
      timelessLevels (L.elements (appendToLevel L levels₀ order₀ qty)) := by
  have hprice : order.price = order₀.price := congrArg (·.price) horder
  have hentry : ({ order with quantity := qty, filledQty := 0 } : OrderBookEntry).timeless =
      ({ order₀ with quantity := qty, filledQty := 0 } : OrderBookEntry).timeless :=
    congrArg (fun x : OrderBookEntry => { x with quantity := qty, filledQty := 0 }) horder
  have hqueue : ((L.get levels order.price).getD []).map timeless =
      ((L.get levels₀ order₀.price).getD []).map timeless := by
    have hget := congrArg (Assoc.get order.price) h
    unfold timelessLevels at hget
    rw [Assoc.get_map, Assoc.get_map, ← L.get_eq, ← L.get_eq, hprice] at hget
    rw [hprice, ← Option.getD_map (List.map timeless), hget, Option.getD_map]
  unfold appendToLevel
  rw [L.elements_set, L.elements_set]
  unfold timelessLevels at h ⊢
  rw [Assoc.set_map, Assoc.set_map, h, map_append, map_append, hqueue,
    map_singleton, map_singleton, hentry, hprice]

variable {buyBefore sellBefore : Int → Int → Prop} [DecidableRel buyBefore]
  [DecidableRel sellBefore] {C : Containers buyBefore sellBefore}

structure SameBook (ob ob₀ : OrderBook C) : Prop where
  symbol : ob.symbol = ob₀.symbol
  buys : timelessLevels (C.buys.elements ob.buys) = timelessLevels (C.buys.elements ob₀.buys)
  sells : timelessLevels (C.sells.elements ob.sells) = timelessLevels (C.sells.elements ob₀.sells)

theorem SameBook.refl (ob : OrderBook C) : SameBook ob ob := ⟨rfl, rfl, rfl⟩

theorem SameBook.recordOrder {ob ob₀ : OrderBook C} {order order₀ : OrderBookEntry}
    (h : SameBook ob ob₀) (horder : order.timeless = order₀.timeless)
    (events events₀ : List TradeExecutedEvent) (qty : Int) :
    SameBook (recordOrder ob order events qty).book (recordOrder ob₀ order₀ events₀ qty).book := by
  have hside : order.side = order₀.side := congrArg (·.side) horder
  unfold CexHertz.recordOrder addOrderToBook
  rw [hside]
  split
  · split
    · exact ⟨h.symbol, timelessLevels_appendToLevel qty h.buys horder, h.sells⟩
    · exact ⟨h.symbol, h.buys, timelessLevels_appendToLevel qty h.sells horder⟩
  · exact ⟨h.symbol, h.buys, h.sells⟩

/-! ## Replay -/

def replayEntry (e : OrderSubmittedEvent) : OrderBookEntry where
  orderID := e.orderID
  userID := e.userID
  symbol := e.symbolStr
  side := e.side
  price := e.price
  quantity := e.quantity
  filledQty := 0
  submitTime := e.timestamp
  sequenceNum := e.seq

/-- Give the orders to a fresh book one after the other; `stamp` is what the trades of each call
read from the sequencer and the clock. -/
def replay (C : Containers buyBefore sellBefore) (symbol : String)
    (stamp : OrderSubmittedEvent → Nat → Stamp) (events : List OrderSubmittedEvent) :
    OrderBook C × List TradeExecutedEvent :=
  events.foldl (fun r e =>
    let result := matchOrder r.1 (replayEntry e) (stamp e)
    (result.book, r.2 ++ result.events)) (newOrderBook C symbol, [])

variable {symbol : String} {stamp : OrderSubmittedEvent → Nat → Stamp}

theorem replay_append (events : List OrderSubmittedEvent) (e : OrderSubmittedEvent) :
    replay C symbol stamp (events ++ [e]) = let r := replay C symbol stamp events
      let result := matchOrder r.1 (replayEntry e) (stamp e)
      (result.book, r.2 ++ result.events) :=
  foldl_concat _ _ _ _

end CexHertz
