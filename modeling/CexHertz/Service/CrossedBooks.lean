import CexHertz.Service.PricePriority
import CexHertz.Service.RestingOrders

/-!
# Crossed books

What is left of an order rests once the loop has stopped, and the loop stops at the first level out
of reach.  That is the worst one, and behind it there may be levels the order could be matched with.
-/

namespace CexHertz

open List

variable {before buyBefore sellBefore : Int → Int → Prop} [DecidableRel before]
  [DecidableRel buyBefore] [DecidableRel sellBefore] {C : Containers buyBefore sellBefore}

/-- Every bid is below every ask. -/
def OrderBook.Uncrossed (ob : OrderBook C) : Prop :=
  ∀ bid ∈ restingOrders (C.buys.elements ob.buys),
    ∀ ask ∈ restingOrders (C.sells.elements ob.sells), bid.price < ask.price

/-! ## One call -/

section

variable {ob : OrderBook C} {P : OrderBookEntry → Prop}
  {order : OrderBookEntry} {stamp : Nat → Stamp}

theorem OrderBook.Uncrossed.cancelOrder (hok : ob.Ok P) (h : ob.Uncrossed)
    (orderID : String) : (BookCall.apply ob (.cancelOrder orderID)).Uncrossed := by
  cases hc : CexHertz.cancelOrder ob orderID with
  | error e =>
    simp only [BookCall.apply, hc, Except.toOption, Option.getD_none]
    exact h
  | ok ob' =>
    simp only [BookCall.apply, hc, Except.toOption, Option.getD_some]
    obtain ⟨order, -, -, ⟨-, rfl⟩ | ⟨-, rfl⟩⟩ := cancelOrder_eq_ok hc
    · exact fun bid hbid => ((hok.buys.imp fun bid hbid _ => h bid hbid).removeFromLevel.entry
        hbid).holds
    · exact fun bid hbid ask hask => ((hok.sells.imp fun ask hask _ bid hbid =>
        h bid hbid ask hask).removeFromLevel.entry hask).holds bid hbid

theorem mem_restingOrders_appendToLevel [IsStrictTotalOrder Int before] {L : Levels before}
    {side : L.Carrier} {qty : Int} (hok : LevelsOk P (L.elements side))
    {x : OrderBookEntry} :
    x ∈ restingOrders (L.elements (appendToLevel L side order qty)) ↔
      x = { order with quantity := qty, filledQty := 0 } ∨ x ∈ restingOrders (L.elements side) := by
  rw [restingOrders_appendToLevel hok, insertBehind_perm.mem_iff, mem_cons]

variable [IsStrictTotalOrder Int buyBefore] [IsStrictTotalOrder Int sellBefore]
variable {events : List TradeExecutedEvent} {qty : Int}

theorem uncrossed_recordOrder_iff (hok : ob.Ok P) (h : ob.Uncrossed) :
    (recordOrder ob order events qty).book.Uncrossed ↔
      (0 < qty → ∀ x ∈ oppositeOrders ob order, ¬ withinLimit order x) := by
  by_cases hqty : 0 < qty
  · unfold oppositeOrders withinLimit OrderBook.Uncrossed recordOrder addOrderToBook
    rw [forall_prop_of_true hqty, if_pos hqty]
    by_cases hside : order.side = "buy"
    · simp only [if_pos hside, mem_restingOrders_appendToLevel hok.buys, forall_eq_or_imp, not_le]
      exact and_iff_left h
    · simp only [if_neg hside, mem_restingOrders_appendToLevel hok.sells, forall_eq_or_imp, not_le]
      exact ⟨fun h' bid hbid => (h' bid hbid).1, fun h' bid hbid => ⟨h' bid hbid, h bid hbid⟩⟩
  · unfold recordOrder
    rw [if_neg hqty]
    exact iff_of_true h fun h => absurd h hqty

end

/-! ## Runs -/

theorem newOrderBook_uncrossed (symbol : String) : (newOrderBook C symbol).Uncrossed := by
  unfold OrderBook.Uncrossed newOrderBook
  rw [C.buys.elements_new]
  exact nofun

/-- Nothing to match, or all of the other side within the order's limit, or none of it. -/
def ReachesAllOrNone (ob : OrderBook C) (order : OrderBookEntry) : Prop :=
  order.quantity ≤ 0 ∨ (∀ x ∈ oppositeOrders ob order, withinLimit order x) ∨
    ∀ x ∈ oppositeOrders ob order, ¬ withinLimit order x

section

variable {C : BookContainers} {ob : OrderBook C}

theorem uncrossed_matchOrder_iff (hok : ob.Ok ExactPrice) (h : ob.Uncrossed)
    (order : OrderBookEntry) (stamp : Nat → Stamp) :
    (matchOrder ob order stamp).book.Uncrossed ↔ ReachesAllOrNone ob order := by
  unfold matchOrder ReachesAllOrNone
  -- matching takes orders away, and the prices that stay are the old ones
  by_cases hside : order.side = "buy"
  · have hsells : LevelsOk (fun ask => ∀ bid ∈ restingOrders (C.buys.elements ob.buys),
        bid.price < ask.price) (C.sells.elements (matchBuyOrder ob order stamp).levels) :=
      LevelsOk.exit (fun _ _ _ h => h)
        (hok.sells.imp fun ask hask _ bid hbid => h bid hbid ask hask)
    rw [if_pos hside]
    refine (uncrossed_recordOrder_iff (P := ExactPrice) ?_ ?_).trans ?_
    · exact ⟨hok.buys, hok.sells.exit stable_exactPrice.sellSide⟩
    · exact fun bid hbid ask hask => (hsells.entry hask).holds bid hbid
    · simp only [oppositeOrders, withinLimit, if_pos hside]
      exact hok.sells.exit_reaches_iff (fun _ => by simp) (fun _ _ => by omega)
        (sells_worst_first hok) rfl
  · have hbuys : LevelsOk (fun bid => ∀ ask ∈ restingOrders (C.sells.elements ob.sells),
        bid.price < ask.price) (C.buys.elements (matchSellOrder ob order stamp).levels) :=
      LevelsOk.exit (fun _ _ _ h => h) (hok.buys.imp fun bid hbid _ => h bid hbid)
    rw [if_neg hside]
    refine (uncrossed_recordOrder_iff (P := ExactPrice) ?_ ?_).trans ?_
    · exact ⟨hok.buys.exit stable_exactPrice.buySide, hok.sells⟩
    · exact fun bid hbid => (hbuys.entry hbid).holds
    · simp only [oppositeOrders, withinLimit, if_neg hside]
      refine hok.buys.exit_reaches_iff (fun _ => by simp) (fun a b (hab : ¬ b ≤ a) _ => ?_)
        (buys_worst_first hok) rfl
      omega

theorem OrderBook.Uncrossed.run_iff (calls : List BookCall)
    (hok : ob.Ok ExactPrice) (h : ob.Uncrossed)
    (hprices : ∀ order stamp, .matchOrder order stamp ∈ calls → ExactPrice order) :
    (∀ pre, pre <+: calls → (runCalls ob pre).Uncrossed) ↔
      EveryMatch ob calls fun ob order _ => ReachesAllOrNone ob order := by
  induction calls generalizing ob with
  | nil =>
    refine iff_of_true (fun pre hpre => ?_) (everyMatch_nil ob _)
    rwa [prefix_nil.mp hpre]
  | cons call rest ih =>
    have hok' := hok.apply stable_exactPrice call fun order stamp hc =>
      hprices order stamp (hc ▸ mem_cons_self)
    have hcall : (call.apply ob).Uncrossed ↔
        ∀ order stamp, call = .matchOrder order stamp → ReachesAllOrNone ob order := by
      cases call with
      | cancelOrder orderID => exact iff_of_true (h.cancelOrder hok orderID) nofun
      | matchOrder order stamp =>
        refine (uncrossed_matchOrder_iff hok h order stamp).trans ⟨?_, fun h => h order stamp rfl⟩
        rintro hr _ _ ⟨⟩
        exact hr
    specialize ih hok'
    constructor
    · intro hpre
      have hfirst : (call.apply ob).Uncrossed := hpre [call] ⟨rest, rfl⟩
      refine everyMatch_cons (hcall.mp hfirst) ((ih hfirst fun order stamp hm => ?_).mp ?_)
      · exact hprices order stamp (.tail _ hm)
      · exact fun pre hp => hpre (call :: pre) ((prefix_cons_inj call).mpr hp)
    · intro hmatch pre hpre
      have hfirst : (call.apply ob).Uncrossed := hcall.mpr fun order stamp hc =>
        hmatch [] order stamp rest (hc ▸ rfl)
      cases pre with
      | nil => exact h
      | cons c pre =>
        obtain ⟨rfl, htail⟩ := cons_prefix_cons.mp hpre
        refine (ih hfirst fun order stamp hm => hprices order stamp (.tail _ hm)).mpr ?_ pre htail
        exact fun mid order stamp post heq => hmatch (c :: mid) order stamp post (heq ▸ rfl)

end

/-- The book of `NewOrderBook` stays uncrossed over a run exactly when every order of the run finds
the whole other side within its limit, or none of it. -/
theorem uncrossed_run_iff (C : BookContainers) (symbol : String) (calls : List BookCall)
    (hprices : ∀ order stamp, .matchOrder order stamp ∈ calls → |order.price| ≤ 2 ^ 53) :
    (∀ pre, pre <+: calls → (runCalls (newOrderBook C symbol) pre).Uncrossed) ↔
      EveryMatch (newOrderBook C symbol) calls fun ob order _ => ReachesAllOrNone ob order :=
  (newOrderBook_uncrossed symbol).run_iff calls (newOrderBook_ok symbol) hprices

/-- Asks at 100 and 102 and a bid at 101: the worst ask is out of reach, so the bid rests above the
other one. -/
theorem bid_between_asks_crosses : ¬ ∀ pre, pre <+:
      [.matchOrder (.limit "a" "u1" "sell" 100 1) noStamp,
       .matchOrder (.limit "b" "u2" "sell" 102 1) noStamp,
       .matchOrder (.limit "c" "u3" "buy" 101 1) noStamp] →
      (runCalls sortedBook pre).Uncrossed := by
  intro h
  refine absurd ((uncrossed_run_iff _ _ _ fun order stamp hm => ?_).mp h
    [.matchOrder (.limit "a" "u1" "sell" 100 1) noStamp,
     .matchOrder (.limit "b" "u2" "sell" 102 1) noStamp] (.limit "c" "u3" "buy" 101 1) noStamp []
    rfl) ?_
  · simp only [mem_cons, BookCall.matchOrder.injEq, not_mem_nil, or_false] at hm
    rcases hm with ⟨rfl, -⟩ | ⟨rfl, -⟩ | ⟨rfl, -⟩ <;> decide
  · unfold ReachesAllOrNone
    decide +kernel

end CexHertz
