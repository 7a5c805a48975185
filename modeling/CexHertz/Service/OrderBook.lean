import CexHertz.Lib.Binary64
import CexHertz.Lib.Loop
import CexHertz.Lib.SkipList
import CexHertz.Model.Event

/-!
# The order book

`orderbook.go`, over any two implementations of the ordered-map contract. What `skiplist.New` does
with a comparator is `Comparable.before`: ascending `CalcScore`, with `Compare` between equal
scores. Queues hold pointers that nothing else shares, so an entry updated through its pointer is an
entry replaced in its queue. The `i`-th trade of a call gets the number and time `stamp i`.
-/

namespace CexHertz

structure OrderBookEntry where
  orderID : String
  userID : String
  symbol : String
  side : String
  price : Int
  quantity : Int
  filledQty : Int
  submitTime : Int
  sequenceNum : Nat
  deriving DecidableEq, Repr

def OrderBookEntry.limit (orderID userID side : String) (price quantity : Int) :
    OrderBookEntry where
  orderID := orderID
  userID := userID
  symbol := "BTC/USDT"
  side := side
  price := price
  quantity := quantity
  filledQty := 0
  submitTime := 0
  sequenceNum := 0

/-! ## Comparators -/

structure Comparable (κ : Type) where
  compare : κ → κ → Int
  calcScore : κ → ℚ

namespace Comparable

variable {κ : Type}

def before (c : Comparable κ) (a b : κ) : Prop :=
  c.calcScore a < c.calcScore b ∨ c.calcScore a = c.calcScore b ∧ c.compare a b < 0

def compareBefore (c : Comparable κ) (a b : κ) : Prop := c.compare a b < 0

instance (c : Comparable κ) : DecidableRel c.before :=
  fun _ _ => inferInstanceAs (Decidable (_ ∨ _))

instance (c : Comparable κ) : DecidableRel c.compareBefore :=
  fun _ _ => inferInstanceAs (Decidable (_ < _))

/-- Scores first, `Compare` second: a strict total order whenever `Compare` is one. -/
instance (c : Comparable κ) [IsStrictTotalOrder κ c.compareBefore] :
    IsStrictTotalOrder κ c.before where
  trichotomous := by
    intro a b hab hba
    have hscore : c.calcScore a = c.calcScore b :=
      le_antisymm (not_lt.mp fun h => hba (.inl h)) (not_lt.mp fun h => hab (.inl h))
    rcases trichotomous (r := c.compareBefore) a b with h | h | h
    · exact absurd (.inr ⟨hscore, h⟩) hab
    · exact h
    · exact absurd (.inr ⟨hscore.symm, h⟩) hba
  irrefl := by
    rintro a (h | ⟨-, h⟩)
    · exact lt_irrefl _ h
    · exact irrefl (r := c.compareBefore) a h
  trans := by
    rintro a b d (hab | ⟨hab, hab'⟩) (hbd | ⟨hbd, hbd'⟩)
    · exact .inl (hab.trans hbd)
    · exact .inl (hbd ▸ hab)
    · exact .inl (hab ▸ hbd)
    · exact .inr ⟨hab.trans hbd, IsTrans.trans (r := c.compareBefore) _ _ _ hab' hbd'⟩

end Comparable

def priceComparatorDesc : Comparable Int where
  compare := fun priceA priceB => if priceA > priceB then -1 else if priceA < priceB then 1 else 0
  calcScore := fun element => Binary64.nearest element

def priceComparatorAsc : Comparable Int where
  compare := fun priceA priceB => if priceA < priceB then -1 else if priceA > priceB then 1 else 0
  calcScore := fun element => -Binary64.nearest element

-- `Compare` alone would keep the bids from the highest price down.
theorem priceComparatorDesc_compareBefore {a b : Int} :
    priceComparatorDesc.compareBefore a b ↔ b < a := by
  unfold Comparable.compareBefore priceComparatorDesc
  dsimp only
  split_ifs <;> simp <;> omega

-- `Compare` alone would keep the asks from the lowest price up.
theorem priceComparatorAsc_compareBefore {a b : Int} :
    priceComparatorAsc.compareBefore a b ↔ a < b := by
  unfold Comparable.compareBefore priceComparatorAsc
  dsimp only
  split_ifs <;> simp <;> omega

instance : IsStrictTotalOrder Int priceComparatorDesc.compareBefore where
  trichotomous := by intro a b; simp only [priceComparatorDesc_compareBefore]; omega
  irrefl := by intro a; simp only [priceComparatorDesc_compareBefore]; omega
  trans := by intro a b c; simp only [priceComparatorDesc_compareBefore]; omega

instance : IsStrictTotalOrder Int priceComparatorAsc.compareBefore where
  trichotomous := by intro a b; simp only [priceComparatorAsc_compareBefore]; omega
  irrefl := by intro a; simp only [priceComparatorAsc_compareBefore]; omega
  trans := by intro a b c; simp only [priceComparatorAsc_compareBefore]; omega

/-! ## The book -/

abbrev Levels (before : Int → Int → Prop) [DecidableRel before] :=
  SkipList Int (List OrderBookEntry) before

structure Containers (buyBefore sellBefore : Int → Int → Prop)
    [DecidableRel buyBefore] [DecidableRel sellBefore] where
  buys : Levels buyBefore
  sells : Levels sellBefore

def Containers.sorted (buyBefore sellBefore : Int → Int → Prop) [DecidableRel buyBefore]
    [DecidableRel sellBefore] [IsStrictTotalOrder Int buyBefore]
    [IsStrictTotalOrder Int sellBefore] : Containers buyBefore sellBefore where
  buys := SkipList.sortedList Int (List OrderBookEntry) buyBefore
  sells := SkipList.sortedList Int (List OrderBookEntry) sellBefore

abbrev sortedContainers : Containers priceComparatorDesc.before priceComparatorAsc.before :=
  Containers.sorted _ _

variable {before : Int → Int → Prop} [DecidableRel before]
variable {buyBefore sellBefore : Int → Int → Prop}
  [DecidableRel buyBefore] [DecidableRel sellBefore]

structure OrderBook (C : Containers buyBefore sellBefore) where
  symbol : String
  buys : C.buys.Carrier
  sells : C.sells.Carrier
  orders : String → Option OrderBookEntry

def newOrderBook (C : Containers buyBefore sellBefore) (symbol : String) : OrderBook C where
  symbol := symbol
  buys := C.buys.new
  sells := C.sells.new
  orders := fun _ => none

structure Stamp where
  seq : Nat
  timestamp : Int

def noStamp : Nat → Stamp := fun _ => ⟨0, 0⟩

/-! ## Matching -/

def setOrRemove (L : Levels before) (levels : L.Carrier) (price : Int)
    (queue : List OrderBookEntry) : L.Carrier :=
  if queue.length = 0 then L.remove levels price else L.set levels price queue

structure MatchState (L : Levels before) where
  levels : L.Carrier
  remainingQty : Int
  events : List TradeExecutedEvent

def tradeEvent (symbol takerSide : String) (order maker : OrderBookEntry) (price : Int)
    (tradeQty : Int) (index : Nat) (stamp : Stamp) : TradeExecutedEvent where
  seq := stamp.seq
  timestamp := stamp.timestamp
  tradeID := symbol ++ "-" ++ order.orderID ++ "-" ++ toString index
  symbolStr := symbol
  takerOrderID := order.orderID
  makerOrderID := maker.orderID
  takerUser := order.userID
  makerUser := maker.userID
  price := price
  quantity := tradeQty
  takerSide := takerSide

def fillMaker (L : Levels before) (symbol takerSide : String) (order : OrderBookEntry)
    (stamp : Nat → Stamp) (st : MatchState L) (price : Int) (maker : OrderBookEntry)
    (rest : List OrderBookEntry) : MatchState L :=
  let tradeQty := minQty st.remainingQty (maker.quantity - maker.filledQty)
  if tradeQty ≤ 0 then
    -- an order with nothing left is taken off its queue without a trade
    { st with levels := setOrRemove L st.levels price rest }
  else
    let event := tradeEvent symbol takerSide order maker price tradeQty st.events.length
      (stamp st.events.length)
    let maker' := { maker with filledQty := maker.filledQty + tradeQty }
    { levels :=
        if maker'.filledQty ≥ maker'.quantity then setOrRemove L st.levels price rest
        else L.set st.levels price (maker' :: rest)
      remainingQty := st.remainingQty - tradeQty
      events := st.events ++ [event] }

/-- One turn of the loop of `matchBuyOrder` and `matchSellOrder`; `stops price` is the test of the
order's limit against the best level. -/
def matchBody (L : Levels before) (stops : Int → Bool) (symbol takerSide : String)
    (order : OrderBookEntry) (stamp : Nat → Stamp) (st : MatchState L) : Option (MatchState L) :=
  if st.remainingQty > 0 ∧ L.len st.levels > 0 then
    match L.front st.levels with
    | none => none
    | some (price, queue) =>
      if stops price then none
      else
        match queue with
        | [] => none
        | maker :: rest => some (fillMaker L symbol takerSide order stamp st price maker rest)
  else none

/-! ### What a turn does -/

def withQueue (price : Int) (queue : List OrderBookEntry)
    (rest : List (Int × List OrderBookEntry)) : List (Int × List OrderBookEntry) :=
  if queue.length = 0 then rest else (price, queue) :: rest

-- The loop only ever writes to the level in front.
theorem elements_setOrRemove {L : Levels before} {levels : L.Carrier} {price : Int}
    {queue queue' : List OrderBookEntry} {tl : List (Int × List OrderBookEntry)}
    (h : L.elements levels = (price, queue) :: tl) :
    L.elements (setOrRemove L levels price queue') = withQueue price queue' tl := by
  unfold setOrRemove withQueue
  split
  · rw [L.elements_remove, h, Assoc.remove_head]
  · rw [L.elements_set, h, Assoc.set_head]

section

variable {L : Levels before} {stops : Int → Bool} {symbol takerSide : String}
  {order : OrderBookEntry} {stamp : Nat → Stamp} {st st' : MatchState L}
variable {price : Int} {tl : List (Int × List OrderBookEntry)}

theorem matchBody_eq_some (h : matchBody L stops symbol takerSide order stamp st = some st') :
    ∃ price maker rest tl, L.elements st.levels = (price, maker :: rest) :: tl ∧
      0 < st.remainingQty ∧ stops price = false ∧
      st' = fillMaker L symbol takerSide order stamp st price maker rest := by
  unfold matchBody at h
  rw [L.front_eq] at h
  split at h
  next hcond =>
    cases hel : L.elements st.levels with
    | nil => simp [hel] at h
    | cons hd tl =>
      obtain ⟨price, queue⟩ := hd
      simp only [hel, List.head?_cons] at h
      split at h
      next => cases h
      next hstop =>
        cases queue with
        | nil => cases h
        | cons maker rest =>
          refine ⟨price, maker, rest, tl, rfl, hcond.1, by simpa using hstop, ?_⟩
          simpa using h.symm
  next => cases h

theorem matchBody_of_first {maker : OrderBookEntry} {rest : List OrderBookEntry}
    (hel : L.elements st.levels = (price, maker :: rest) :: tl) (hrem : 0 < st.remainingQty)
    (hstop : stops price = false) :
    matchBody L stops symbol takerSide order stamp st =
      some (fillMaker L symbol takerSide order stamp st price maker rest) := by
  unfold matchBody
  rw [L.front_eq, L.len_eq, hel, if_pos ⟨hrem, Nat.succ_pos _⟩]
  simp [hstop]

-- The limit is tested against the first level only, whatever lies behind it.
theorem matchBody_of_stops {queue : List OrderBookEntry}
    (hel : L.elements st.levels = (price, queue) :: tl) (hstop : stops price = true) :
    matchBody L stops symbol takerSide order stamp st = none := by
  unfold matchBody
  rw [L.front_eq, hel]
  simp [hstop]

theorem matchBody_of_empty (hel : L.elements st.levels = []) :
    matchBody L stops symbol takerSide order stamp st = none := by
  unfold matchBody
  rw [L.len_eq, hel, if_neg (by simp)]

theorem matchBody_of_nothing_left (hrem : st.remainingQty ≤ 0) :
    matchBody L stops symbol takerSide order stamp st = none := by
  unfold matchBody
  rw [if_neg fun h => absurd h.1 (not_lt.mpr hrem)]

/-- The loop stops when nothing remains, the side is empty, or the first level is out of reach. -/
theorem matchBody_eq_none (h : matchBody L stops symbol takerSide order stamp st = none) :
    st.remainingQty ≤ 0 ∨ L.elements st.levels = [] ∨
      ∃ price queue tl, L.elements st.levels = (price, queue) :: tl ∧
        (stops price = true ∨ queue = []) := by
  unfold matchBody at h
  rw [L.front_eq, L.len_eq] at h
  cases hel : L.elements st.levels with
  | nil => exact .inr (.inl rfl)
  | cons hd tl =>
    obtain ⟨price, queue⟩ := hd
    by_cases hrem : 0 < st.remainingQty
    · refine .inr (.inr ⟨price, queue, tl, rfl, ?_⟩)
      simp only [hel, List.head?_cons, List.length_cons] at h
      rw [if_pos ⟨hrem, Nat.succ_pos _⟩] at h
      split at h
      next hstop => exact .inl hstop
      next =>
        cases queue with
        | nil => exact .inr rfl
        | cons maker rest => cases h
    · exact .inl (not_lt.mp hrem)

/-- The three things a turn can do: drop an exhausted order, fill the first order completely, or
fill it partly and have nothing left to match. -/
theorem fillMaker_cases {maker : OrderBookEntry} {rest : List OrderBookEntry}
    (hel : L.elements st.levels = (price, maker :: rest) :: tl) (hrem : 0 < st.remainingQty)
    (h : st' = fillMaker L symbol takerSide order stamp st price maker rest) :
    (maker.quantity - maker.filledQty ≤ 0 ∧ L.elements st'.levels = withQueue price rest tl ∧
      st'.remainingQty = st.remainingQty ∧ st'.events = st.events) ∨
    (0 < maker.quantity - maker.filledQty ∧ maker.quantity - maker.filledQty ≤ st.remainingQty ∧
      L.elements st'.levels = withQueue price rest tl ∧
      st'.remainingQty = st.remainingQty - (maker.quantity - maker.filledQty) ∧
      st'.events = st.events ++ [tradeEvent symbol takerSide order maker price
        (maker.quantity - maker.filledQty) st.events.length (stamp st.events.length)]) ∨
    (st.remainingQty < maker.quantity - maker.filledQty ∧ L.elements st'.levels =
        (price, { maker with filledQty := maker.filledQty + st.remainingQty } :: rest) :: tl ∧
      st'.remainingQty = 0 ∧
      st'.events = st.events ++ [tradeEvent symbol takerSide order maker price
        st.remainingQty st.events.length (stamp st.events.length)]) := by
  subst h
  unfold fillMaker minQty
  dsimp only
  by_cases hlt : st.remainingQty < maker.quantity - maker.filledQty
  · refine .inr (.inr ⟨hlt, ?_⟩)
    rw [if_pos hlt, if_neg (by omega), if_neg (by omega)]
    exact ⟨by rw [L.elements_set, hel, Assoc.set_head], Int.sub_self _, rfl⟩
  · rw [if_neg hlt]
    by_cases hpos : maker.quantity - maker.filledQty ≤ 0
    · refine .inl ⟨hpos, ?_⟩
      rw [if_pos hpos]
      exact ⟨elements_setOrRemove hel, rfl, rfl⟩
    · refine .inr (.inl ⟨by omega, by omega, ?_⟩)
      rw [if_neg hpos, if_pos (by omega)]
      exact ⟨elements_setOrRemove hel, rfl, rfl⟩

/-- A turn adds no trade, or one with the first order of the first level. -/
theorem matchBody_events (h : matchBody L stops symbol takerSide order stamp st = some st') :
    ∃ price maker rest tl, L.elements st.levels = (price, maker :: rest) :: tl ∧
      (st'.events = st.events ∨ ∃ qty, st'.events = st.events ++ [tradeEvent symbol takerSide order
        maker price qty st.events.length (stamp st.events.length)]) := by
  obtain ⟨price, maker, rest, tl, hel, hrem, -, hst⟩ := matchBody_eq_some h
  refine ⟨price, maker, rest, tl, hel, ?_⟩
  rcases fillMaker_cases hel hrem hst with ⟨-, -, -, he⟩ | ⟨-, -, -, -, he⟩ | ⟨-, -, -, he⟩
  · exact .inl he
  · exact .inr ⟨_, he⟩
  · exact .inr ⟨_, he⟩

end

/-! ### The loop -/

def restingCount (levels : List (Int × List OrderBookEntry)) : Nat :=
  (levels.map fun level => level.2.length).sum

theorem restingCount_withQueue (price : Int) (queue : List OrderBookEntry)
    (tl : List (Int × List OrderBookEntry)) :
    restingCount (withQueue price queue tl) = queue.length + restingCount tl := by
  unfold withQueue
  split
  next h => omega
  next => simp [restingCount]

def matchSize (L : Levels before) (st : MatchState L) : Nat :=
  restingCount (L.elements st.levels) + if 0 < st.remainingQty then 1 else 0

def matchLoop (L : Levels before) (stops : Int → Bool) (symbol takerSide : String)
    (order : OrderBookEntry) (stamp : Nat → Stamp) : Loop.Bounded (MatchState L) where
  body := matchBody L stops symbol takerSide order stamp
  size := matchSize L
  shrinks := by
    intro st st' h
    obtain ⟨price, maker, rest, tl, hel, hrem, -, hst⟩ := matchBody_eq_some h
    have hcount : restingCount (L.elements st.levels) = rest.length + 1 + restingCount tl := by
      rw [hel]
      simp [restingCount]
    unfold matchSize
    rcases fillMaker_cases hel hrem hst with ⟨-, hl, hr, -⟩ | ⟨-, -, hl, hr, -⟩ | ⟨-, hl, hr, -⟩
    · rw [hl, hr, restingCount_withQueue, hcount]
      omega
    · rw [hl, restingCount_withQueue, hcount, if_pos hrem]
      split <;> omega
    · have hsame : restingCount (L.elements st'.levels) = restingCount (L.elements st.levels) := by
        rw [hl, hel]
        simp [restingCount]
      rw [hsame, hr, if_pos hrem, if_neg (by omega)]
      omega

def matchBuyLoop (C : Containers buyBefore sellBefore) (symbol : String) (order : OrderBookEntry)
    (stamp : Nat → Stamp) : Loop.Bounded (MatchState C.sells) :=
  matchLoop C.sells (fun sellPrice => decide (order.price < sellPrice)) symbol "buy" order stamp

def matchSellLoop (C : Containers buyBefore sellBefore) (symbol : String) (order : OrderBookEntry)
    (stamp : Nat → Stamp) : Loop.Bounded (MatchState C.buys) :=
  matchLoop C.buys (fun buyPrice => decide (order.price > buyPrice)) symbol "sell" order stamp

def matchStart (L : Levels before) (levels : L.Carrier) (order : OrderBookEntry) : MatchState L :=
  ⟨levels, order.quantity, []⟩

variable {C : Containers buyBefore sellBefore}

def matchBuyOrder (ob : OrderBook C) (order : OrderBookEntry) (stamp : Nat → Stamp) :
    MatchState C.sells :=
  (matchBuyLoop C ob.symbol order stamp).exit (matchStart C.sells ob.sells order)

def matchSellOrder (ob : OrderBook C) (order : OrderBookEntry) (stamp : Nat → Stamp) :
    MatchState C.buys :=
  (matchSellLoop C ob.symbol order stamp).exit (matchStart C.buys ob.buys order)

def appendToLevel (L : Levels before) (levels : L.Carrier) (order : OrderBookEntry)
    (qty : Int) : L.Carrier :=
  let queue := (L.get levels order.price).getD []
  L.set levels order.price (queue ++ [{ order with quantity := qty, filledQty := 0 }])

def addOrderToBook (ob : OrderBook C) (order : OrderBookEntry) (qty : Int) : OrderBook C :=
  if order.side = "buy" then { ob with buys := appendToLevel C.buys ob.buys order qty }
  else { ob with sells := appendToLevel C.sells ob.sells order qty }

structure MatchResult (C : Containers buyBefore sellBefore) where
  book : OrderBook C
  events : List TradeExecutedEvent
  remainingQty : Int

def recordOrder (ob : OrderBook C) (order : OrderBookEntry) (events : List TradeExecutedEvent)
    (remainingQty : Int) : MatchResult C :=
  let ob := if remainingQty > 0 then addOrderToBook ob order remainingQty else ob
  { book := { ob with orders := Function.update ob.orders order.orderID (some order) }
    events := events
    remainingQty := remainingQty }

def matchOrder (ob : OrderBook C) (order : OrderBookEntry) (stamp : Nat → Stamp) : MatchResult C :=
  if order.side = "buy" then
    let st := matchBuyOrder ob order stamp
    recordOrder { ob with sells := st.levels } order st.events st.remainingQty
  else
    let st := matchSellOrder ob order stamp
    recordOrder { ob with buys := st.levels } order st.events st.remainingQty

/-! ## Cancelling -/

def removeFromLevel (L : Levels before) (levels : L.Carrier) (price : Int)
    (orderID : String) : L.Carrier :=
  match L.get levels price with
  | none => levels
  | some queue => setOrRemove L levels price (queue.filter fun q => q.orderID ≠ orderID)

def cancelOrder (ob : OrderBook C) (orderID : String) : Except String (OrderBook C) :=
  match ob.orders orderID with
  | none => .error ("order not found: " ++ orderID)
  | some order =>
    if order.filledQty > 0 then .error ("cannot cancel partially filled order: " ++ orderID)
    else
      let ob' :=
        if order.side = "buy" then
          { ob with buys := removeFromLevel C.buys ob.buys order.price orderID }
        else { ob with sells := removeFromLevel C.sells ob.sells order.price orderID }
      .ok { ob' with orders := Function.update ob.orders orderID none }

/-! ## Runs -/

inductive BookCall where
  | matchOrder (order : OrderBookEntry) (stamp : Nat → Stamp)
  | cancelOrder (orderID : String)

def BookCall.apply (ob : OrderBook C) : BookCall → OrderBook C
  | .matchOrder order stamp => (CexHertz.matchOrder ob order stamp).book
  | .cancelOrder orderID => (CexHertz.cancelOrder ob orderID).toOption.getD ob

def runCalls (ob : OrderBook C) (calls : List BookCall) : OrderBook C :=
  calls.foldl BookCall.apply ob

end CexHertz
