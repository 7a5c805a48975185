import CexHertz.Service.BookInvariant

/-!
# Price priority

The skip lists sort by ascending `CalcScore`, and the scores are the negatives of what the `Compare`
methods say: `Front()` is the worst level of a side. A call keeps price priority exactly when that
does not matter: nothing to match, one price only on the other side, or no order within the limit.
-/

namespace CexHertz

open List

variable {before : Int → Int → Prop} [DecidableRel before]
variable {buyBefore sellBefore : Int → Int → Prop} [DecidableRel buyBefore]
  [DecidableRel sellBefore] {C : Containers buyBefore sellBefore}

/-- Price priority of one `MatchOrder` call.  A trade's moment is the loop state `st` before the
turn that produced it. -/
structure PricePriority (ob : OrderBook C) (order : OrderBookEntry) (stamp : Nat → Stamp) :
    Prop where
  buy_best : order.side = "buy" → ∀ st st' e,
    Relation.ReflTransGen (fun a b => (matchBuyLoop C ob.symbol order stamp).body a = some b)
      (matchStart C.sells ob.sells order) st →
    (matchBuyLoop C ob.symbol order stamp).body st = some st' → st'.events = st.events ++ [e] →
    ∀ x ∈ restingOrders (C.sells.elements st.levels), e.price ≤ x.price
  sell_best : order.side ≠ "buy" → ∀ st st' e,
    Relation.ReflTransGen (fun a b => (matchSellLoop C ob.symbol order stamp).body a = some b)
      (matchStart C.buys ob.buys order) st →
    (matchSellLoop C ob.symbol order stamp).body st = some st' → st'.events = st.events ++ [e] →
    ∀ x ∈ restingOrders (C.buys.elements st.levels), x.price ≤ e.price
  buy_exhausted : order.side = "buy" → 0 < (matchOrder ob order stamp).remainingQty →
    ∀ x ∈ restingOrders (C.sells.elements (matchOrder ob order stamp).book.sells),
      ¬ x.price ≤ order.price
  sell_exhausted : order.side ≠ "buy" → 0 < (matchOrder ob order stamp).remainingQty →
    ∀ x ∈ restingOrders (C.buys.elements (matchOrder ob order stamp).book.buys),
      ¬ order.price ≤ x.price

def withinLimit (order x : OrderBookEntry) : Prop :=
  if order.side = "buy" then x.price ≤ order.price else order.price ≤ x.price

def LevelOrderIrrelevant (ob : OrderBook C) (order : OrderBookEntry) : Prop :=
  order.quantity ≤ 0 ∨
    (∀ x ∈ oppositeOrders ob order, ∀ y ∈ oppositeOrders ob order, x.price = y.price) ∨
    ∀ x ∈ oppositeOrders ob order, ¬ withinLimit order x

instance (order x : OrderBookEntry) : Decidable (withinLimit order x) :=
  inferInstanceAs (Decidable (if order.side = "buy" then x.price ≤ order.price
    else order.price ≤ x.price))

instance (ob : OrderBook C) (order : OrderBookEntry) :
    Decidable (LevelOrderIrrelevant ob order) := inferInstanceAs (Decidable (_ ∨ _ ∨ _))

/-! ## One side, worst level first -/

section

variable {L : Levels before} {better : Int → Int → Prop} {limit : Int} {stops : Int → Bool}
  {symbol takerSide : String} {order : OrderBookEntry} {stamp : Nat → Stamp}

/-- Price priority of one matching loop, for the order `better` of its side. -/
def SidePriority (better : Int → Int → Prop) (limit : Int) (loop : Loop.Bounded (MatchState L))
    (st₀ : MatchState L) : Prop :=
  (∀ st st' e, Relation.ReflTransGen (fun a b => loop.body a = some b) st₀ st →
    loop.body st = some st' → st'.events = st.events ++ [e] →
    ∀ x ∈ restingOrders (L.elements st.levels), better e.price x.price) ∧
  (0 < (loop.exit st₀).remainingQty →
    ∀ x ∈ restingOrders (L.elements (loop.exit st₀).levels), ¬ better x.price limit)

-- A loop that breaks at once has no turns.
theorem not_turn_of_none {loop : Loop.Bounded (MatchState L)} {st₀ st st' : MatchState L}
    (hnone : loop.body st₀ = none)
    (hreach : Relation.ReflTransGen (fun a b => loop.body a = some b) st₀ st) :
    loop.body st ≠ some st' := by
  intro hturn
  rcases hreach.cases_head with rfl | ⟨c, hc, -⟩
  · rw [hnone] at hturn
    cases hturn
  · rw [hnone] at hc
    cases hc

theorem matchBody_event {st st' : MatchState L} {e : TradeExecutedEvent}
    (h : matchBody L stops symbol takerSide order stamp st = some st')
    (he : st'.events = st.events ++ [e]) :
    ∃ maker rest tl, L.elements st.levels = (e.price, maker :: rest) :: tl := by
  obtain ⟨price, maker, rest, tl, hel, hev | ⟨qty, hev⟩⟩ := matchBody_events h
  · rw [hev] at he
    exact absurd (congrArg List.length he) (by simp)
  · rw [hev, append_cancel_left_eq] at he
    cases he
    exact ⟨maker, rest, tl, hel⟩

variable {P : OrderBookEntry → Prop}

theorem matchBody_trades {st : MatchState L} {price : Int} {maker : OrderBookEntry}
    {rest : List OrderBookEntry} {tl : List (Int × List OrderBookEntry)}
    (hel : L.elements st.levels = (price, maker :: rest) :: tl) (hrem : 0 < st.remainingQty)
    (hstop : stops price = false) (hopen : maker.filledQty < maker.quantity) :
    ∃ st' e, matchBody L stops symbol takerSide order stamp st = some st' ∧
      st'.events = st.events ++ [e] ∧ e.price = price := by
  refine ⟨fillMaker L symbol takerSide order stamp st price maker rest, ?_⟩
  rw [matchBody_of_first hel hrem hstop]
  rcases fillMaker_cases hel hrem rfl with ⟨hle, -⟩ | ⟨-, -, -, -, hev⟩ | ⟨-, -, -, hev⟩
  · omega
  · exact ⟨_, rfl, hev, rfl⟩
  · exact ⟨_, rfl, hev, rfl⟩

theorem LevelsOk.first_stops {st : MatchState L} (hok : LevelsOk P (L.elements st.levels))
    (hstop : matchBody L stops symbol takerSide order stamp st = none)
    (hleft : 0 < st.remainingQty) {price : Int} {queue : List OrderBookEntry}
    {tl : List (Int × List OrderBookEntry)} (hel : L.elements st.levels = (price, queue) :: tl) :
    stops price = true := by
  rcases matchBody_eq_none hstop with h | h | ⟨_, _, _, hel', h⟩
  · omega
  · rw [hel] at h
    cases h
  · rw [hel] at hel' hok
    cases hel'
    exact h.resolve_right (hok _ mem_cons_self).nonempty

/-- With the worst level in front, what the loop leaves is out of reach exactly when all of the side
was within reach or none of it: otherwise the loop ends before its first turn. -/
theorem LevelsOk.exit_reaches_iff (hstops : ∀ p, stops p = true ↔ ¬ better p limit)
    (hmono : ∀ a b, ¬ better a b → ¬ better b limit → ¬ better a limit) {st out : MatchState L}
    (hok : LevelsOk P (L.elements st.levels))
    (hworst : (L.elements st.levels).Pairwise fun a b => ¬ better a.1 b.1)
    (hout : (matchLoop L stops symbol takerSide order stamp).exit st = out) :
    (0 < out.remainingQty → ∀ x ∈ restingOrders (L.elements out.levels), ¬ better x.price limit) ↔
      st.remainingQty ≤ 0 ∨ (∀ x ∈ restingOrders (L.elements st.levels), better x.price limit) ∨
      ∀ x ∈ restingOrders (L.elements st.levels), ¬ better x.price limit := by
  have hnone : (matchLoop L stops symbol takerSide order stamp).body st = none → out = st :=
    fun h => hout ▸ Loop.Bounded.exit_of_none _ h
  by_cases hqty : st.remainingQty ≤ 0
  · rw [hnone (matchBody_of_nothing_left hqty)]
    exact ⟨fun _ => .inl hqty, fun _ h => absurd h (not_lt.mpr hqty)⟩
  rw [or_iff_right hqty]
  by_cases hreach : ∀ x ∈ restingOrders (L.elements st.levels), better x.price limit
  · refine ⟨fun _ => .inl hreach, fun _ hleft => ?_⟩
    have hend : LevelsOk (fun x => better x.price limit) (L.elements out.levels) :=
      hout ▸ (hok.imp fun x hx _ => hreach x hx).exit fun _ _ _ h => h
    have hstop := (matchLoop L stops symbol takerSide order stamp).body_exit st
    rw [hout] at hstop
    cases hel : L.elements out.levels with
    | nil => exact nofun
    | cons first tl =>
      obtain ⟨x, hx, hprice⟩ := hend.exists_entry (hel ▸ mem_cons_self)
      have hfirst := (hstops _).mp (hend.first_stops hstop hleft hel)
      exact absurd (hprice ▸ (hend.entry hx).holds) hfirst
  · rw [or_iff_right hreach]
    simp only [not_forall] at hreach
    obtain ⟨x, hx, hxl⟩ := hreach
    obtain ⟨level, hl, hlx⟩ := mem_restingOrders.mp hx
    rw [((hok level hl).entries x hlx).price_eq] at hxl
    cases hel : L.elements st.levels with
    | nil =>
      rw [hel] at hl
      cases hl
    | cons first tl =>
      have hfirst : ¬ better first.1 limit := by
        rw [hel] at hl hworst
        rcases mem_cons.mp hl with rfl | hl
        · exact hxl
        · exact hmono _ _ ((pairwise_cons.mp hworst).1 level hl) hxl
      rw [hnone (matchBody_of_stops hel ((hstops _).mpr hfirst)), hel]
      exact ⟨fun h => h (not_le.mp hqty), fun h _ => h⟩

/-- If nothing that rests is better than the level in front, which is the worst, all prices are
one. -/
theorem price_eq_of_worst_first {levels tl : List (Int × List OrderBookEntry)} {price : Int}
    {queue : List OrderBookEntry} (hel : levels = (price, queue) :: tl) (hok : LevelsOk P levels)
    (hworst : levels.Pairwise fun a b => ¬ better a.1 b.1)
    (hbest : ∀ x ∈ restingOrders levels, better price x.price) :
    ∀ x ∈ restingOrders levels, x.price = price := by
  intro x hx
  have hbetter := hbest x hx
  obtain ⟨level, hl, hxl⟩ := mem_restingOrders.mp hx
  have hprice := ((hok level hl).entries x hxl).price_eq
  rw [hel] at hl hworst
  rcases List.mem_cons.mp hl with rfl | hl
  · exact hprice
  · rw [hprice] at hbetter
    exact absurd hbetter ((List.pairwise_cons.mp hworst).1 level hl)

/-- With the worst level in front, a loop keeps price priority exactly when the order in which the
levels are visited cannot matter. -/
theorem sidePriority_iff (hrefl : ∀ a, better a a) (hstops : ∀ p, stops p = true ↔ ¬ better p limit)
    (hmono : ∀ a b, ¬ better a b → ¬ better b limit → ¬ better a limit) {st₀ : MatchState L}
    (hok : LevelsOk P (L.elements st₀.levels))
    (hworst : (L.elements st₀.levels).Pairwise fun a b => ¬ better a.1 b.1) :
    SidePriority better limit (matchLoop L stops symbol takerSide order stamp) st₀ ↔
      st₀.remainingQty ≤ 0 ∨
      (∀ x ∈ restingOrders (L.elements st₀.levels), ∀ y ∈ restingOrders (L.elements st₀.levels),
        x.price = y.price) ∨
      ∀ x ∈ restingOrders (L.elements st₀.levels), ¬ better x.price limit := by
  unfold SidePriority
  rw [hok.exit_reaches_iff hstops hmono hworst rfl]
  constructor
  · rintro ⟨hbest, hqty | hall | hnone⟩
    · exact .inl hqty
    · by_cases hqty : st₀.remainingQty ≤ 0
      · exact .inl hqty
      -- the first trade is at the worst price, and nothing that rests is better
      refine .inr (.inl fun x hx y hy => ?_)
      obtain ⟨level, hl, -⟩ := mem_restingOrders.mp hx
      cases hel : L.elements st₀.levels with
      | nil =>
        rw [hel] at hl
        cases hl
      | cons first tl =>
        obtain ⟨price, queue⟩ := first
        have hfirst := hok (price, queue) (hel ▸ mem_cons_self)
        cases queue with
        | nil => exact absurd rfl hfirst.nonempty
        | cons maker rest =>
          have hmaker := hfirst.entries maker mem_cons_self
          have hreach := hall maker (mem_restingOrders.mpr ⟨_, hel ▸ mem_cons_self, mem_cons_self⟩)
          rw [hmaker.price_eq] at hreach
          have hstop : ¬ stops price = true := fun h => (hstops price).mp h hreach
          obtain ⟨st', e, hturn, he, hprice⟩ :=
            matchBody_trades hel (not_le.mp hqty) (by simpa using hstop) hmaker.filled_lt
          have hprices := price_eq_of_worst_first hel hok hworst
            (hprice ▸ hbest st₀ st' e .refl hturn he)
          exact (hprices x hx).trans (hprices y hy).symm
    · exact .inr (.inr hnone)
  · rintro (hqty | hone | hnone)
    · exact ⟨fun st st' e hreach hturn =>
        absurd hturn (not_turn_of_none (matchBody_of_nothing_left hqty) hreach), .inl hqty⟩
    · refine ⟨fun st st' e hreach hturn he x hx => ?_, .inr ?_⟩
      · have hst := Loop.Bounded.reached_invariant (I := fun s => LevelsOk
            (fun x => ∃ y ∈ restingOrders (L.elements st₀.levels), x.price = y.price)
            (L.elements s.levels))
          (fun _ _ ha hb => ha.turn (fun _ _ _ h => h) hb)
          (hok.imp fun x hx _ => ⟨x, hx, rfl⟩) hreach
        obtain ⟨maker, rest, tl, hel⟩ := matchBody_event hturn he
        have hmaker := (hst _ (hel ▸ mem_cons_self)).entries maker mem_cons_self
        obtain ⟨y, hy, hprice⟩ := hmaker.holds
        obtain ⟨z, hz, hprice'⟩ := (hst.entry hx).holds
        rw [hprice', ← hone y hy z hz, ← hprice, hmaker.price_eq]
        exact hrefl _
      · by_cases h : ∃ y ∈ restingOrders (L.elements st₀.levels), ¬ better y.price limit
        · obtain ⟨y, hy, hout⟩ := h
          exact .inr fun x hx => hone x hx y hy ▸ hout
        · exact .inl fun x hx => by_contra fun hout => h ⟨x, hx, hout⟩
    · refine ⟨fun st st' e hreach hturn => absurd hturn (not_turn_of_none ?_ hreach),
        .inr (.inr hnone)⟩
      cases hel : L.elements st₀.levels with
      | nil => exact matchBody_of_empty hel
      | cons first tl =>
        obtain ⟨y, hy, hprice⟩ := hok.exists_entry (hel ▸ mem_cons_self)
        exact matchBody_of_stops hel ((hstops _).mpr (hprice ▸ hnone y hy))

end

/-! ## The order of the containers -/

theorem priceComparatorDesc_before {a b : Int} (ha : |a| ≤ 2 ^ 53) (hb : |b| ≤ 2 ^ 53)
    (h : priceComparatorDesc.before a b) : a < b := by
  have hscore : ∀ {p : Int}, |p| ≤ 2 ^ 53 → priceComparatorDesc.calcScore p = p :=
    fun hp => Binary64.nearest_intCast hp
  rcases h with h | ⟨h, hcmp⟩
  · rw [hscore ha, hscore hb] at h
    exact_mod_cast h
  · rw [hscore ha, hscore hb] at h
    have heq : a = b := by exact_mod_cast h
    have hlt := priceComparatorDesc_compareBefore.mp hcmp
    omega

-- The score is negated here, so ascending scores are descending prices.
theorem priceComparatorAsc_before {a b : Int} (ha : |a| ≤ 2 ^ 53) (hb : |b| ≤ 2 ^ 53)
    (h : priceComparatorAsc.before a b) : b < a := by
  have hscore : ∀ {p : Int}, |p| ≤ 2 ^ 53 → priceComparatorAsc.calcScore p = -p :=
    fun hp => congrArg Neg.neg (Binary64.nearest_intCast hp)
  rcases h with h | ⟨h, hcmp⟩
  · rw [hscore ha, hscore hb, neg_lt_neg_iff] at h
    exact_mod_cast h
  · rw [hscore ha, hscore hb, neg_inj] at h
    have heq : a = b := by exact_mod_cast h
    have hlt := priceComparatorAsc_compareBefore.mp hcmp
    omega

/-- The book `NewOrderBook` builds, up to the implementation of the skip lists. -/
abbrev BookContainers := Containers priceComparatorDesc.before priceComparatorAsc.before

def ExactPrice (x : OrderBookEntry) : Prop := |x.price| ≤ 2 ^ 53

theorem stable_exactPrice : Stable ExactPrice := fun _ _ _ h => h

section

variable {C : BookContainers} {ob : OrderBook C} {order : OrderBookEntry} {stamp : Nat → Stamp}

theorem LevelsOk.exact_level {Q : OrderBookEntry → Prop}
    {levels : List (Int × List OrderBookEntry)}
    (h : LevelsOk (fun x => Q x ∧ ExactPrice x) levels) {level : Int × List OrderBookEntry}
    (hl : level ∈ levels) : |level.1| ≤ 2 ^ 53 := by
  obtain ⟨x, hx, hprice⟩ := h.exists_entry hl
  rw [← hprice]
  exact (h.entry hx).holds.2

-- What a buyer meets first is the dearest ask.
theorem sells_worst_first (hok : ob.Ok ExactPrice) :
    (C.sells.elements ob.sells).Pairwise fun a b => ¬ a.1 ≤ b.1 :=
  (C.sells.ascending ob.sells).imp_of_mem fun ha hb hlt => not_le.mpr
    (priceComparatorAsc_before (hok.sells.exact_level ha) (hok.sells.exact_level hb) hlt)

-- What a seller meets first is the lowest bid.
theorem buys_worst_first (hok : ob.Ok ExactPrice) :
    (C.buys.elements ob.buys).Pairwise fun a b => ¬ b.1 ≤ a.1 :=
  (C.buys.ascending ob.buys).imp_of_mem fun ha hb hlt => not_le.mpr
    (priceComparatorDesc_before (hok.buys.exact_level ha) (hok.buys.exact_level hb) hlt)

theorem pricePriority_iff_buy (hside : order.side = "buy") : PricePriority ob order stamp ↔
      SidePriority (· ≤ ·) order.price (matchBuyLoop C ob.symbol order stamp)
        (matchStart C.sells ob.sells order) := by
  have hresult : matchOrder ob order stamp = _ := if_pos hside
  constructor
  · intro h
    refine ⟨h.buy_best hside, ?_⟩
    have hex := h.buy_exhausted hside
    rwa [hresult, recordOrder_sells hside] at hex
  · rintro ⟨hbest, hex⟩
    refine ⟨fun _ => hbest, fun h => absurd hside h, fun _ => ?_, fun h => absurd hside h⟩
    rwa [hresult, recordOrder_sells hside]

theorem pricePriority_iff_sell (hside : order.side ≠ "buy") : PricePriority ob order stamp ↔
      SidePriority (fun a b => b ≤ a) order.price (matchSellLoop C ob.symbol order stamp)
        (matchStart C.buys ob.buys order) := by
  have hresult : matchOrder ob order stamp = _ := if_neg hside
  constructor
  · intro h
    refine ⟨h.sell_best hside, ?_⟩
    have hex := h.sell_exhausted hside
    rwa [hresult, recordOrder_buys hside] at hex
  · rintro ⟨hbest, hex⟩
    refine ⟨fun h => absurd h hside, fun _ => hbest, fun h => absurd h hside, fun _ => ?_⟩
    rwa [hresult, recordOrder_buys hside]

theorem pricePriority_iff (hok : ob.Ok ExactPrice) :
    PricePriority ob order stamp ↔ LevelOrderIrrelevant ob order := by
  unfold LevelOrderIrrelevant oppositeOrders withinLimit
  by_cases hside : order.side = "buy"
  · simp only [if_pos hside]
    rw [pricePriority_iff_buy hside]
    apply sidePriority_iff
    · exact fun a => le_refl a
    · exact fun p => by simp
    · exact fun a b => by omega
    · exact hok.sells
    · exact sells_worst_first hok
  · simp only [if_neg hside]
    rw [pricePriority_iff_sell hside]
    apply sidePriority_iff
    · exact fun a => le_refl a
    · exact fun p => by simp
    · exact fun a b => by omega
    · exact hok.buys
    · exact buys_worst_first hok

end

/-! ## Runs -/

/-- Over every run from a fresh book, price priority is kept throughout exactly when at every call
the order of the levels cannot matter. -/
theorem pricePriority_run_iff (C : BookContainers) (symbol : String) (calls : List BookCall)
    (hprices : ∀ order stamp, .matchOrder order stamp ∈ calls → |order.price| ≤ 2 ^ 53) :
    EveryMatch (newOrderBook C symbol) calls PricePriority ↔
      EveryMatch (newOrderBook C symbol) calls fun ob order _ => LevelOrderIrrelevant ob order := by
  have hok : ∀ pre order stamp post, calls = pre ++ .matchOrder order stamp :: post →
      (runCalls (newOrderBook C symbol) pre).Ok ExactPrice := by
    intro pre order stamp post heq
    refine (newOrderBook_ok symbol).runCalls stable_exactPrice pre fun o st hmem => ?_
    exact hprices o st (heq ▸ mem_append_left _ hmem)
  constructor
  · intro h pre order stamp post heq
    exact (pricePriority_iff (hok pre order stamp post heq)).mp (h pre order stamp post heq)
  · intro h pre order stamp post heq
    exact (pricePriority_iff (hok pre order stamp post heq)).mpr (h pre order stamp post heq)

def sortedBook : OrderBook sortedContainers := newOrderBook _ "BTC/USDT"

theorem pricePriority_one_ask : EveryMatch sortedBook
      [.matchOrder (.limit "a" "u1" "sell" 100 1) noStamp,
       .matchOrder (.limit "b" "u2" "buy" 100 1) noStamp] PricePriority := by
  refine (pricePriority_run_iff _ _ _ ?_).mpr ?_
  · intro order stamp h
    simp only [mem_cons, BookCall.matchOrder.injEq, not_mem_nil, or_false] at h
    rcases h with ⟨rfl, -⟩ | ⟨rfl, -⟩ <;> decide
  · refine everyMatch_cons ?_ (everyMatch_cons ?_ (everyMatch_nil _ _))
    · rintro order stamp ⟨⟩
      decide +kernel
    · rintro order stamp ⟨⟩
      decide +kernel

/-- Two asks at 100 and 101: a buy at 101 trades at 101. -/
theorem not_pricePriority_two_asks : ¬ EveryMatch sortedBook
      [.matchOrder (.limit "a" "u1" "sell" 100 1) noStamp,
       .matchOrder (.limit "b" "u2" "sell" 101 1) noStamp,
       .matchOrder (.limit "c" "u3" "buy" 101 1) noStamp] PricePriority := by
  intro h
  have hcall := h [.matchOrder (.limit "a" "u1" "sell" 100 1) noStamp,
    .matchOrder (.limit "b" "u2" "sell" 101 1) noStamp] (.limit "c" "u3" "buy" 101 1) noStamp [] rfl
  rw [pricePriority_iff] at hcall
  · revert hcall
    decide +kernel
  · refine (newOrderBook_ok _).runCalls stable_exactPrice _ fun order stamp h => ?_
    simp only [mem_cons, BookCall.matchOrder.injEq, not_mem_nil, or_false] at h
    rcases h with ⟨rfl, -⟩ | ⟨rfl, -⟩ <;> (unfold ExactPrice; decide)

end CexHertz
