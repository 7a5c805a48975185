import CexHertz.Service.OrderBook

/-!
# What holds of every book

Levels are never empty, an order rests at the level of its price and on its side, and it is open.
The invariant carries a predicate `P` on entries, for whatever the calls guarantee about the orders
they submit (`Stable` predicates do not look at quantities).
-/

namespace CexHertz

open List

variable {before : Int → Int → Prop} [DecidableRel before]
variable {buyBefore sellBefore : Int → Int → Prop} [DecidableRel buyBefore]
  [DecidableRel sellBefore]

def restingOrders (levels : List (Int × List OrderBookEntry)) : List OrderBookEntry :=
  levels.flatMap fun level => level.2

theorem mem_restingOrders {levels : List (Int × List OrderBookEntry)} {x : OrderBookEntry} :
    x ∈ restingOrders levels ↔ ∃ level ∈ levels, x ∈ level.2 := mem_flatMap

theorem restingOrders_withQueue (price : Int) (queue : List OrderBookEntry)
    (tl : List (Int × List OrderBookEntry)) :
    restingOrders (withQueue price queue tl) = queue ++ restingOrders tl := by
  unfold withQueue
  split
  next h => rw [length_eq_zero_iff.mp h, nil_append]
  next => rfl

def Stable (P : OrderBookEntry → Prop) : Prop :=
  ∀ x quantity filledQty, P x → P { x with quantity := quantity, filledQty := filledQty }

structure EntryOk (P : OrderBookEntry → Prop) (price : Int) (x : OrderBookEntry) : Prop where
  price_eq : x.price = price
  filled_nonneg : 0 ≤ x.filledQty
  filled_lt : x.filledQty < x.quantity
  holds : P x

structure LevelOk (P : OrderBookEntry → Prop) (level : Int × List OrderBookEntry) : Prop where
  nonempty : level.2 ≠ []
  entries : ∀ x ∈ level.2, EntryOk P level.1 x

def LevelsOk (P : OrderBookEntry → Prop) (levels : List (Int × List OrderBookEntry)) : Prop :=
  ∀ level ∈ levels, LevelOk P level

section

variable {P : OrderBookEntry → Prop} {levels tl : List (Int × List OrderBookEntry)} {price : Int}
  {queue : List OrderBookEntry} {x : OrderBookEntry}

theorem LevelsOk.entry (h : LevelsOk P levels) (hx : x ∈ restingOrders levels) :
    EntryOk P x.price x := by
  obtain ⟨level, hl, hx⟩ := mem_restingOrders.mp hx
  have hok := (h level hl).entries x hx
  rwa [hok.price_eq]

-- Strengthening the predicate needs a look at the resting orders only.
theorem LevelsOk.imp {Q : OrderBookEntry → Prop} (h : LevelsOk P levels)
    (himp : ∀ x ∈ restingOrders levels, P x → Q x) : LevelsOk Q levels := by
  intro level hl
  refine ⟨(h level hl).nonempty, fun x hx => ?_⟩
  have hok := (h level hl).entries x hx
  exact ⟨hok.price_eq, hok.filled_nonneg, hok.filled_lt,
    himp x (mem_restingOrders.mpr ⟨level, hl, hx⟩) hok.holds⟩

theorem LevelsOk.tail {level : Int × List OrderBookEntry} (h : LevelsOk P (level :: tl)) :
    LevelsOk P tl := fun l hl => h l (.tail _ hl)

theorem LevelsOk.withQueue (h : LevelsOk P tl) (hq : ∀ x ∈ queue, EntryOk P price x) :
    LevelsOk P (withQueue price queue tl) := by
  unfold CexHertz.withQueue
  split
  next => exact h
  next hne =>
    intro level hl
    rcases mem_cons.mp hl with rfl | hl
    · exact ⟨fun he => hne (length_eq_zero_iff.mpr he), hq⟩
    · exact h level hl

theorem LevelsOk.exists_entry (h : LevelsOk P levels) {level : Int × List OrderBookEntry}
    (hl : level ∈ levels) : ∃ x ∈ restingOrders levels, x.price = level.1 := by
  obtain ⟨y, hy⟩ := exists_mem_of_ne_nil _ (h level hl).nonempty
  exact ⟨y, mem_restingOrders.mpr ⟨level, hl, hy⟩, ((h level hl).entries y hy).price_eq⟩

variable {L : Levels before} {stops : Int → Bool} {symbol takerSide : String}
  {order : OrderBookEntry} {stamp : Nat → Stamp}

theorem LevelsOk.turn (hP : Stable P) {st st' : MatchState L}
    (hok : LevelsOk P (L.elements st.levels))
    (h : matchBody L stops symbol takerSide order stamp st = some st') :
    LevelsOk P (L.elements st'.levels) := by
  obtain ⟨price, maker, rest, tl, hel, hrem, -, hst⟩ := matchBody_eq_some h
  rw [hel] at hok
  have hfirst := hok _ mem_cons_self
  have hrest : ∀ x ∈ rest, EntryOk P price x :=
    fun x hx => hfirst.entries x (.tail _ hx)
  rcases fillMaker_cases hel hrem hst with ⟨-, hl, -⟩ | ⟨-, -, hl, -⟩ | ⟨hlt, hl, -⟩
  · rw [hl]
    exact hok.tail.withQueue hrest
  · rw [hl]
    exact hok.tail.withQueue hrest
  · -- filled in part: what is filled stays below the quantity
    rw [hl]
    have hmaker := hfirst.entries maker mem_cons_self
    intro level hmem
    rcases mem_cons.mp hmem with rfl | hmem
    · refine ⟨cons_ne_nil _ _, fun x hx => ?_⟩
      rcases mem_cons.mp hx with rfl | hx
      · exact ⟨hmaker.price_eq, by have := hmaker.filled_nonneg; dsimp only; omega,
          by dsimp only; omega, hP maker maker.quantity _ hmaker.holds⟩
      · exact hrest x hx
    · exact hok.tail level hmem

theorem LevelsOk.exit (hP : Stable P) {st : MatchState L}
    (hok : LevelsOk P (L.elements st.levels)) :
    LevelsOk P (L.elements ((matchLoop L stops symbol takerSide order stamp).exit st).levels) :=
  (matchLoop L stops symbol takerSide order stamp).exit_invariant
    (I := fun s => LevelsOk P (L.elements s.levels)) (fun _ _ ha hb => ha.turn hP hb) hok

-- The copy that rests has quantity `qty` and nothing filled, so it is open.
theorem LevelsOk.appendToLevel (hP : Stable P) {side : L.Carrier} {qty : Int}
    (hok : LevelsOk P (L.elements side)) (horder : P order) (hqty : 0 < qty) :
    LevelsOk P (L.elements (appendToLevel L side order qty)) := by
  unfold CexHertz.appendToLevel
  rw [L.elements_set, L.get_eq]
  intro level hl
  rcases Assoc.eq_or_mem_of_mem_set hl with rfl | hl
  · refine ⟨by simp, fun x hx => ?_⟩
    rcases mem_append.mp hx with hx | hx
    · cases hg : Assoc.get order.price (L.elements side) with
      | none => simp [hg] at hx
      | some queue =>
        rw [hg] at hx
        exact (hok _ (Assoc.mem_of_get hg)).entries x hx
    · rw [mem_singleton.mp hx]
      exact ⟨rfl, le_refl _, hqty, hP order qty 0 horder⟩
  · exact hok level hl

-- A level that loses its last order is dropped, so no level becomes empty.
theorem LevelsOk.removeFromLevel {side : L.Carrier} {orderID : String}
    (hok : LevelsOk P (L.elements side)) :
    LevelsOk P (L.elements (removeFromLevel L side price orderID)) := by
  unfold CexHertz.removeFromLevel
  rw [L.get_eq]
  cases hg : Assoc.get price (L.elements side) with
  | none => exact hok
  | some queue =>
    have hlevel := hok _ (Assoc.mem_of_get hg)
    -- the level is dropped or shortened, never left empty
    dsimp only
    unfold setOrRemove
    split
    next =>
      rw [L.elements_remove]
      exact fun level hl => hok level (Assoc.mem_of_mem_remove hl)
    next hne =>
      rw [L.elements_set]
      intro level hl
      rcases Assoc.eq_or_mem_of_mem_set hl with rfl | hl
      · exact ⟨fun he => hne (length_eq_zero_iff.mpr he),
          fun x hx => hlevel.entries x (mem_filter.mp hx).1⟩
      · exact hok level hl

end

/-! ## Whole books -/

variable {C : Containers buyBefore sellBefore}

structure OrderBook.Ok (P : OrderBookEntry → Prop) (ob : OrderBook C) : Prop where
  buys : LevelsOk (fun x => x.side = "buy" ∧ P x) (C.buys.elements ob.buys)
  sells : LevelsOk (fun x => x.side ≠ "buy" ∧ P x) (C.sells.elements ob.sells)

section

variable {P : OrderBookEntry → Prop} {ob : OrderBook C}
  {order : OrderBookEntry} {stamp : Nat → Stamp}
variable {qty : Int} {events : List TradeExecutedEvent}

theorem Stable.buySide (hP : Stable P) : Stable fun x => x.side = "buy" ∧ P x :=
  fun x q f h => ⟨h.1, hP x q f h.2⟩

theorem Stable.sellSide (hP : Stable P) : Stable fun x => x.side ≠ "buy" ∧ P x :=
  fun x q f h => ⟨h.1, hP x q f h.2⟩

theorem newOrderBook_ok (symbol : String) : (newOrderBook C symbol).Ok P := by
  refine ⟨?_, ?_⟩
  · simp only [newOrderBook, C.buys.elements_new, LevelsOk, not_mem_nil, false_implies,
      implies_true]
  · simp only [newOrderBook, C.sells.elements_new, LevelsOk, not_mem_nil, false_implies,
      implies_true]

theorem OrderBook.Ok.addOrderToBook (hP : Stable P) (hok : ob.Ok P) (horder : P order)
    (hqty : 0 < qty) : (addOrderToBook ob order qty).Ok P := by
  unfold CexHertz.addOrderToBook
  split
  next hside => exact ⟨hok.buys.appendToLevel hP.buySide ⟨hside, horder⟩ hqty, hok.sells⟩
  next hside => exact ⟨hok.buys, hok.sells.appendToLevel hP.sellSide ⟨hside, horder⟩ hqty⟩

theorem OrderBook.Ok.recordOrder (hP : Stable P) (hok : ob.Ok P) (horder : P order) :
    (recordOrder ob order events qty).book.Ok P := by
  unfold CexHertz.recordOrder
  split
  next hqty =>
    have h := hok.addOrderToBook hP horder hqty
    exact ⟨h.buys, h.sells⟩
  next => exact ⟨hok.buys, hok.sells⟩

theorem OrderBook.Ok.matchOrder (hP : Stable P) (hok : ob.Ok P) (horder : P order) :
    (matchOrder ob order stamp).book.Ok P := by
  unfold CexHertz.matchOrder
  split
  · exact OrderBook.Ok.recordOrder hP ⟨hok.buys, hok.sells.exit hP.sellSide⟩ horder
  · exact OrderBook.Ok.recordOrder hP ⟨hok.buys.exit hP.buySide, hok.sells⟩ horder

theorem cancelOrder_eq_ok {orderID : String} {ob' : OrderBook C}
    (h : cancelOrder ob orderID = .ok ob') :
    ∃ order, ob.orders orderID = some order ∧ order.filledQty ≤ 0 ∧
      ((order.side = "buy" ∧ ob' = { ob with
          buys := removeFromLevel C.buys ob.buys order.price orderID
          orders := Function.update ob.orders orderID none }) ∨
       (order.side ≠ "buy" ∧ ob' = { ob with
          sells := removeFromLevel C.sells ob.sells order.price orderID
          orders := Function.update ob.orders orderID none })) := by
  unfold cancelOrder at h
  cases ho : ob.orders orderID with
  | none => simp [ho] at h
  | some order =>
    simp only [ho] at h
    split at h
    next => cases h
    next hfilled =>
      refine ⟨order, rfl, not_lt.mp hfilled, ?_⟩
      injection h with h
      by_cases hside : order.side = "buy"
      · exact .inl ⟨hside, by rw [← h, if_pos hside]⟩
      · exact .inr ⟨hside, by rw [← h, if_neg hside]⟩

theorem OrderBook.Ok.apply (hP : Stable P) (call : BookCall) (hok : ob.Ok P)
    (hcall : ∀ order stamp, call = .matchOrder order stamp → P order) : (call.apply ob).Ok P := by
  cases call with
  | matchOrder order stamp => exact hok.matchOrder hP (hcall order stamp rfl)
  | cancelOrder orderID =>
    cases hc : cancelOrder ob orderID with
    | error e =>
      simp only [BookCall.apply, hc, Except.toOption, Option.getD_none]
      exact hok
    | ok ob' =>
      simp only [BookCall.apply, hc, Except.toOption, Option.getD_some]
      obtain ⟨order, -, -, ⟨-, rfl⟩ | ⟨-, rfl⟩⟩ := cancelOrder_eq_ok hc
      · exact ⟨hok.buys.removeFromLevel, hok.sells⟩
      · exact ⟨hok.buys, hok.sells.removeFromLevel⟩

theorem OrderBook.Ok.runCalls (hP : Stable P) (calls : List BookCall) (hok : ob.Ok P)
    (hcalls : ∀ order stamp, .matchOrder order stamp ∈ calls → P order) :
    (runCalls ob calls).Ok P := by
  induction calls generalizing ob with
  | nil => exact hok
  | cons call rest ih =>
    refine ih (hok.apply hP call ?_) fun order stamp h => hcalls order stamp (.tail _ h)
    intro order stamp heq
    exact hcalls order stamp (heq ▸ mem_cons_self)

-- An order is added to its own side, after the other side was matched.
theorem recordOrder_sells (hside : order.side = "buy") :
    (recordOrder ob order events qty).book.sells = ob.sells := by
  unfold recordOrder addOrderToBook
  rw [if_pos hside]
  split <;> rfl

theorem recordOrder_buys (hside : order.side ≠ "buy") :
    (recordOrder ob order events qty).book.buys = ob.buys := by
  unfold recordOrder addOrderToBook
  rw [if_neg hside]
  split <;> rfl

end

def oppositeOrders (ob : OrderBook C) (order : OrderBookEntry) : List OrderBookEntry :=
  if order.side = "buy" then restingOrders (C.sells.elements ob.sells)
  else restingOrders (C.buys.elements ob.buys)

/-! ## Runs -/

/-- `Q` holds of every `MatchOrder` call of a run, at the book the call finds. -/
def EveryMatch (ob : OrderBook C) (calls : List BookCall)
    (Q : OrderBook C → OrderBookEntry → (Nat → Stamp) → Prop) : Prop :=
  ∀ pre order stamp post, calls = pre ++ .matchOrder order stamp :: post →
    Q (runCalls ob pre) order stamp

theorem everyMatch_nil (ob : OrderBook C)
    (Q : OrderBook C → OrderBookEntry → (Nat → Stamp) → Prop) : EveryMatch ob [] Q := by
  intro pre order stamp post h
  simp at h

-- The run rule: look at the first call, then go on from the book it leaves.
theorem everyMatch_cons {ob : OrderBook C} {call : BookCall} {rest : List BookCall}
    {Q : OrderBook C → OrderBookEntry → (Nat → Stamp) → Prop}
    (hfirst : ∀ order stamp, call = .matchOrder order stamp → Q ob order stamp)
    (hrest : EveryMatch (call.apply ob) rest Q) : EveryMatch ob (call :: rest) Q := by
  intro pre order stamp post h
  cases pre with
  | nil =>
    obtain ⟨hcall, -⟩ := List.cons.inj h
    exact hfirst order stamp hcall
  | cons first pre =>
    obtain ⟨rfl, hrest'⟩ := List.cons.inj h
    exact hrest pre order stamp post hrest'

end CexHertz
