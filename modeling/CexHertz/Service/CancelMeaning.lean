import CexHertz.Service.Accounting
import Mathlib.Data.List.Perm.Subperm

/-!
# What a successful cancel says

`CancelOrder` decides on the record in `orders`, whose `FilledQty` no fill ever updates. The
accounts of a run say how much of an order has been traded, and whether any of it rests.
-/

namespace CexHertz

open List OrderBookEntry Ledger TradeExecutedEvent Function

variable {buyBefore sellBefore : Int → Int → Prop} [DecidableRel buyBefore]
  [DecidableRel sellBefore] {C : Containers buyBefore sellBefore}

/-! ## Totals that vanish -/

section

variable {ids : String → Bool} {party : TradeExecutedEvent → String}
  {trades : List TradeExecutedEvent}

theorem tradedTotal_nonneg (hpos : ∀ e ∈ trades, 0 < e.quantity) :
    0 ≤ tradedTotal party ids trades := by
  apply sum_nonneg
  intro q hq
  obtain ⟨e, he, rfl⟩ := mem_map.mp hq
  exact (hpos e (mem_of_mem_filter he)).le

theorem tradedTotal_eq_zero_iff (hpos : ∀ e ∈ trades, 0 < e.quantity) :
    tradedTotal party ids trades = 0 ↔ ∀ e ∈ trades, ids (party e) = false := by
  induction trades with
  | nil => exact ⟨nofun, fun _ => rfl⟩
  | cons e rest ih =>
    have hrest : ∀ e ∈ rest, 0 < e.quantity := fun x hx => hpos x (.tail _ hx)
    have hnonneg : 0 ≤ tradedTotal party ids rest := tradedTotal_nonneg hrest
    have he : 0 < e.quantity := hpos e mem_cons_self
    rw [show e :: rest = [e] ++ rest from rfl, tradedTotal_append, tradedTotal_singleton,
      forall_mem_append, forall_mem_singleton, ← ih hrest]
    cases ids (party e) with
    | false => simp
    | true =>
      rw [if_pos rfl]
      constructor
      · intro h
        omega
      · intro h
        cases h.1

end

/-! ## The entries of one id -/

def bookOrders (ob : OrderBook C) : List OrderBookEntry :=
  restingOrders (C.buys.elements ob.buys) ++ restingOrders (C.sells.elements ob.sells)

def entriesOf (ob : OrderBook C) (id : String) : List OrderBookEntry :=
  (bookOrders ob).filter fun x => x.orderID = id

theorem restingQty_eq_entries (ob : OrderBook C) (id : String) :
    restingQty ob id = ((entriesOf ob id).map openQty).sum :=
  openTotal_append.symm

theorem OrderBook.Ok.openQty_pos {P : OrderBookEntry → Prop} {ob : OrderBook C} (hok : ob.Ok P)
    {x : OrderBookEntry} (hx : x ∈ bookOrders ob) : 0 < openQty x := by
  have hlt : x.filledQty < x.quantity := by
    rcases mem_append.mp hx with hx | hx
    · exact (hok.buys.entry hx).filled_lt
    · exact (hok.sells.entry hx).filled_lt
  unfold openQty
  omega

-- With distinct ids in the book there is at most one entry to find.
theorem entriesOf_length_le {ob : OrderBook C}
    (hdistinct : ((bookOrders ob).map orderID).Nodup) (id : String) :
    (entriesOf ob id).length ≤ 1 := by
  have hcount := nodup_iff_count_le_one.mp hdistinct id
  rwa [count_eq_countP, countP_map, countP_eq_length_filter] at hcount

theorem exists_entry_iff {P : OrderBookEntry → Prop} {ob : OrderBook C} (hok : ob.Ok P)
    (hdistinct : ((bookOrders ob).map orderID).Nodup) (id : String) :
    (∃ x, entriesOf ob id = [x]) ↔ 0 < restingQty ob id := by
  rw [restingQty_eq_entries]
  constructor
  · rintro ⟨x, hx⟩
    have hmem : x ∈ entriesOf ob id := hx ▸ mem_cons_self
    rw [hx, map_singleton, sum_singleton]
    exact hok.openQty_pos (mem_of_mem_filter hmem)
  · intro hpos
    have hlen := entriesOf_length_le hdistinct id
    match h : entriesOf ob id with
    | [] =>
      rw [h] at hpos
      exact absurd hpos (lt_irrefl 0)
    | [x] => exact ⟨x, rfl⟩
    | _ :: _ :: _ =>
      rw [h] at hlen
      simp at hlen

/-! ## One matching call -/

section

variable {before : Int → Int → Prop} [DecidableRel before] {L : Levels before}
  {stops : Int → Bool} {symbol takerSide : String} {order : OrderBookEntry}
  {stamp : Nat → Stamp}

theorem restingIDs_turn {st st' : MatchState L}
    (h : matchBody L stops symbol takerSide order stamp st = some st') :
    ((restingOrders (L.elements st'.levels)).map orderID).Sublist
      ((restingOrders (L.elements st.levels)).map orderID) := by
  obtain ⟨price, maker, rest, tl, hel, hrem, -, hst⟩ := matchBody_eq_some h
  rw [hel, restingOrders_cons, cons_append, map_cons]
  rcases fillMaker_cases hel hrem hst with ⟨-, hl, -⟩ | ⟨-, -, hl, -⟩ | ⟨-, hl, -⟩
  · rw [hl, restingOrders_withQueue]
    exact sublist_cons_self _ _
  · rw [hl, restingOrders_withQueue]
    exact sublist_cons_self _ _
  · rw [hl, restingOrders_cons, cons_append, map_cons]

theorem restingIDs_exit (st : MatchState L) :
    ((restingOrders (L.elements ((matchLoop L stops symbol takerSide order stamp).exit
        st).levels)).map orderID).Sublist
      ((restingOrders (L.elements st.levels)).map orderID) :=
  (matchLoop L stops symbol takerSide order stamp).exit_invariant
    (I := fun s => ((restingOrders (L.elements s.levels)).map orderID).Sublist
      ((restingOrders (L.elements st.levels)).map orderID))
    (fun _ _ ha hb => (restingIDs_turn hb).trans ha) (.refl _)

theorem matchLoop_of_nothing (levels : L.Carrier) (h : order.quantity ≤ 0) :
    (matchLoop L stops symbol takerSide order stamp).exit (matchStart L levels order) =
      matchStart L levels order :=
  (matchLoop L stops symbol takerSide order stamp).exit_of_none (matchBody_of_nothing_left h)

variable {P : OrderBookEntry → Prop} {ob : OrderBook C}

-- An order for nothing trades nothing; a negative quantity comes back as the remainder.
theorem matchOrder_events_of_nothing (h : order.quantity ≤ 0) :
    (matchOrder ob order stamp).events = [] := by
  unfold matchOrder
  split
  · show (matchBuyOrder ob order stamp).events = []
    unfold matchBuyOrder matchBuyLoop
    rw [matchLoop_of_nothing ob.sells h]
    rfl
  · show (matchSellOrder ob order stamp).events = []
    unfold matchSellOrder matchSellLoop
    rw [matchLoop_of_nothing ob.buys h]
    rfl

variable [IsStrictTotalOrder Int buyBefore] [IsStrictTotalOrder Int sellBefore]

/-- Per id: what a call adds to the trades and to the book is the quantity that can be matched. -/
theorem matchOrder_balance (hP : Stable P) (hok : ob.Ok P) (id : String) :
    (if order.orderID = id then max order.quantity 0 else 0) + restingQty ob id =
      tradedTotal takerOrderID (fun x => x = id)
        (matchOrder ob order stamp).events +
      tradedTotal makerOrderID (fun x => x = id)
        (matchOrder ob order stamp).events +
      restingQty (matchOrder ob order stamp).book id := by
  have h : CallConserves ob order (matchOrder ob order stamp) := matchOrder_conserves hP hok
  by_cases hqty : 0 ≤ order.quantity
  · rw [max_eq_left hqty]
    exact h.balance hqty id
  · have hev : (matchOrder ob order stamp).events = [] :=
      matchOrder_events_of_nothing (not_le.mp hqty).le
    have htaker := h.taker
    rw [hev] at htaker
    change order.quantity = (matchOrder ob order stamp).remainingQty + 0 at htaker
    rw [restingQty_eq_sides ob order, restingQty_eq_sides (matchOrder ob order stamp).book order,
      h.opposite, h.own, hev, max_eq_right (not_le.mp hqty).le, max_eq_right (by omega), ite_self,
      ite_self]
    show 0 + (_ + 0 + _) = 0 + 0 + (_ + (_ + 0))
    omega

theorem matchOrder_bookIDs (hP : Stable P) (hok : ob.Ok P) :
    ((bookOrders (matchOrder ob order stamp).book).map orderID).Subperm
      (order.orderID :: (bookOrders ob).map orderID) := by
  have hadd : ∀ {ob : OrderBook C}, ob.Ok P → ∀ events qty,
      ((bookOrders (recordOrder ob order events qty).book).map orderID).Subperm
        (order.orderID :: (bookOrders ob).map orderID) := by
    intro ob hok events qty
    unfold recordOrder
    split
    · unfold addOrderToBook bookOrders
      split
      · rw [restingOrders_appendToLevel hok.buys]
        exact ((insertBehind_perm.append_right _).map _).subperm
      · rw [restingOrders_appendToLevel hok.sells]
        exact (((insertBehind_perm.append_left _).trans perm_middle).map _).subperm
    · exact (sublist_cons_self _ _).subperm
  unfold matchOrder
  split
  · have hok' : OrderBook.Ok P { ob with sells := (matchBuyOrder ob order stamp).levels } :=
      ⟨hok.buys, hok.sells.exit hP.sellSide⟩
    refine (hadd hok' _ _).trans ((subperm_cons _).mpr ?_)
    unfold bookOrders
    rw [map_append, map_append]
    exact (List.Sublist.append (.refl _) (restingIDs_exit _)).subperm
  · have hok' : OrderBook.Ok P { ob with buys := (matchSellOrder ob order stamp).levels } :=
      ⟨hok.buys.exit hP.buySide, hok.sells⟩
    refine (hadd hok' _ _).trans ((subperm_cons _).mpr ?_)
    unfold bookOrders
    rw [map_append, map_append]
    exact (List.Sublist.append (restingIDs_exit _) (.refl _)).subperm

end

/-! ## One cancel -/

section

variable {ob ob' : OrderBook C} {id : String}

/-- What a cancel of `id` that leaves `ob'` is to mean, after the given trades: one entry of the id
rested and none of it was ever traded, and exactly that entry is gone. -/
structure CancelMeans (ob : OrderBook C) (trades : List TradeExecutedEvent) (id : String)
    (ob' : OrderBook C) : Prop where
  rests : ∃ x, entriesOf ob id = [x]
  untraded : ∀ e ∈ trades, e.takerOrderID ≠ id ∧ e.makerOrderID ≠ id
  buys : restingOrders (C.buys.elements ob'.buys) =
    (restingOrders (C.buys.elements ob.buys)).filter fun x => x.orderID ≠ id
  sells : restingOrders (C.sells.elements ob'.sells) =
    (restingOrders (C.sells.elements ob.sells)).filter fun x => x.orderID ≠ id

-- The record fixes the price, so filtering the level by id filters the side by id.
theorem filter_cancels_of_recorded {P : OrderBookEntry → Prop}
    {levels : List (Int × List OrderBookEntry)} {orders : String → Option OrderBookEntry}
    {order : OrderBookEntry} (hok : LevelsOk (fun x => P x ∧ Recorded orders x) levels)
    (horder : orders id = some order) :
    ((restingOrders levels).filter fun x => !cancels order.price id x) =
      (restingOrders levels).filter fun x => x.orderID ≠ id := by
  apply filter_congr
  intro x hx
  by_cases heq : x.orderID = id
  · obtain ⟨o, ho, hprice, -⟩ := (hok.entry hx).holds.2
    rw [heq, horder] at ho
    cases ho
    simp [cancels, heq, hprice]
  · simp [cancels, heq]

-- And an order recorded on one side has no entry on the other.
theorem filter_ne_of_other_side {P : OrderBookEntry → Prop}
    {levels : List (Int × List OrderBookEntry)} {orders : String → Option OrderBookEntry}
    {order : OrderBookEntry} (hok : LevelsOk (fun x => P x ∧ Recorded orders x) levels)
    (horder : orders id = some order) (hside : ∀ x, P x → x.side ≠ order.side) :
    ((restingOrders levels).filter fun x => x.orderID ≠ id) = restingOrders levels := by
  rw [filter_eq_self]
  intro x hx
  apply decide_eq_true
  rintro rfl
  obtain ⟨hPx, o, ho, -, hs⟩ := (hok.entry hx).holds
  rw [horder] at ho
  cases ho
  exact hside x hPx hs.symm

variable [IsStrictTotalOrder Int buyBefore] [IsStrictTotalOrder Int sellBefore]

theorem cancelOrder_filters (hok : ob.Ok (Recorded ob.orders)) (h : cancelOrder ob id = .ok ob') :
    restingOrders (C.buys.elements ob'.buys) =
        ((restingOrders (C.buys.elements ob.buys)).filter fun x => x.orderID ≠ id) ∧
      restingOrders (C.sells.elements ob'.sells) =
        (restingOrders (C.sells.elements ob.sells)).filter fun x => x.orderID ≠ id := by
  obtain ⟨order, horder, -, ⟨hside, rfl⟩ | ⟨hside, rfl⟩⟩ := cancelOrder_eq_ok h
  · constructor
    · rw [restingOrders_removeFromLevel hok.buys, filter_cancels_of_recorded hok.buys horder]
    · exact (filter_ne_of_other_side hok.sells horder fun x hx => hside ▸ hx).symm
  · constructor
    · exact (filter_ne_of_other_side hok.buys horder fun x hx heq => hside (heq ▸ hx)).symm
    · rw [restingOrders_removeFromLevel hok.sells, filter_cancels_of_recorded hok.sells horder]

end

/-! ## Whole runs -/

section

variable {calls : List BookCall} {s : Ledger C}

def Ledger.volume (s : Ledger C) (id : String) : Int :=
  s.takerQty id + s.makerQty id + restingQty s.book id

structure Tracked (calls : List BookCall) (s : Ledger C) : Prop where
  ok : s.book.Ok (Recorded s.book.orders)
  known : ∀ id, s.book.orders id ≠ none → id ∈ submittedIDs calls
  volume : ∀ id order, s.book.orders id = some order → s.volume id = max order.quantity 0
  fresh : ∀ id, id ∉ submittedIDs calls → s.volume id = 0
  positive : ∀ e ∈ s.trades, 0 < e.quantity
  distinct : ((bookOrders s.book).map orderID).Nodup

theorem tracked_new (symbol : String) :
    Tracked [] (⟨newOrderBook C symbol, [], fun _ => 0⟩ : Ledger C) := by
  have hnil : bookOrders (newOrderBook C symbol) = [] := by
    simp only [bookOrders, newOrderBook, C.buys.elements_new, C.sells.elements_new]
    rfl
  refine ⟨newOrderBook_ok symbol, fun _ h => absurd rfl h, fun _ _ h => ?_, fun id _ => ?_,
    fun _ h => absurd h not_mem_nil, ?_⟩
  · cases h
  · show 0 + 0 + restingQty (newOrderBook C symbol) id = 0
    rw [restingQty_eq_entries, entriesOf, hnil]
    rfl
  · rw [hnil]
    exact nodup_nil

-- An entry in the book is on record, so an id that is not has none.
theorem OrderBook.Ok.not_mem_bookIDs {ob : OrderBook C} (hok : ob.Ok (Recorded ob.orders))
    {id : String} (hnone : ob.orders id = none) :
    id ∉ (bookOrders ob).map orderID := by
  intro hmem
  obtain ⟨x, hx, rfl⟩ := mem_map.mp hmem
  have hrec : Recorded ob.orders x := by
    rcases mem_append.mp hx with hx | hx
    · exact (hok.buys.entry hx).holds.2
    · exact (hok.sells.entry hx).holds.2
  obtain ⟨o, ho, -⟩ := hrec
  rw [hnone] at ho
  cases ho

theorem Tracked.untraded_iff (h : Tracked calls s) (id : String) :
    (∀ e ∈ s.trades, e.takerOrderID ≠ id ∧ e.makerOrderID ≠ id) ↔
      s.takerQty id + s.makerQty id = 0 := by
  have htaker : s.takerQty id = 0 ↔ ∀ e ∈ s.trades, decide (e.takerOrderID = id) = false :=
    tradedTotal_eq_zero_iff h.positive
  have hmaker : s.makerQty id = 0 ↔ ∀ e ∈ s.trades, decide (e.makerOrderID = id) = false :=
    tradedTotal_eq_zero_iff h.positive
  have htaker' : 0 ≤ s.takerQty id := tradedTotal_nonneg h.positive
  have hmaker' : 0 ≤ s.makerQty id := tradedTotal_nonneg h.positive
  rw [show s.takerQty id + s.makerQty id = 0 ↔ s.takerQty id = 0 ∧ s.makerQty id = 0 by omega,
    htaker, hmaker]
  simp only [decide_eq_false_iff_not]
  exact ⟨fun h => ⟨fun e he => (h e he).1, fun e he => (h e he).2⟩,
    fun h e he => ⟨h.1 e he, h.2 e he⟩⟩

variable [IsStrictTotalOrder Int buyBefore] [IsStrictTotalOrder Int sellBefore]

theorem Tracked.volume_matchOrder (h : Tracked calls s) (order : OrderBookEntry)
    (stamp : Nat → Stamp) (id : String) :
    (s.apply (.matchOrder order stamp)).volume id =
      s.volume id + if order.orderID = id then max order.quantity 0 else 0 := by
  have hbalance : (if order.orderID = id then max order.quantity 0 else 0) + restingQty s.book id =
        tradedTotal takerOrderID (fun x => x = id)
          (CexHertz.matchOrder s.book order stamp).events +
        tradedTotal makerOrderID (fun x => x = id)
          (CexHertz.matchOrder s.book order stamp).events +
        restingQty (CexHertz.matchOrder s.book order stamp).book id :=
    matchOrder_balance (stable_recorded _) h.ok id
  simp only [Ledger.volume, Ledger.takerQty, Ledger.makerQty, Ledger.apply, tradedTotal_append]
  omega

theorem Tracked.matchOrder (h : Tracked calls s) {order : OrderBookEntry} {stamp : Nat → Stamp}
    (hfresh : order.orderID ∉ submittedIDs calls) :
    Tracked (calls ++ [.matchOrder order stamp]) (s.apply (.matchOrder order stamp)) := by
  have hnone : s.book.orders order.orderID = none := by
    by_contra hne
    exact hfresh (h.known _ hne)
  have horders : (s.apply (.matchOrder order stamp)).book.orders =
      update s.book.orders order.orderID (some order) := matchOrder_orders
  have hcall : CallConserves s.book order (CexHertz.matchOrder s.book order stamp) :=
    matchOrder_conserves (stable_recorded _) h.ok
  have hids : submittedIDs (calls ++ [.matchOrder order stamp]) =
      submittedIDs calls ++ [order.orderID] := submittedIDs_append _ _
  refine ⟨recorded_matchOrder h.ok hnone, fun id hid => ?_, fun id o ho => ?_, fun id hid => ?_,
    fun e he => ?_, ?_⟩
  · rw [horders] at hid
    rw [hids]
    by_cases heq : id = order.orderID
    · rw [heq]
      exact mem_append_right _ mem_cons_self
    · rw [update_of_ne heq] at hid
      exact mem_append_left _ (h.known id hid)
  · rw [horders] at ho
    rw [h.volume_matchOrder]
    by_cases heq : id = order.orderID
    · -- the id is new, so its whole volume is this order's
      subst heq
      rw [update_self] at ho
      cases ho
      rw [h.fresh _ hfresh, if_pos rfl, Int.zero_add]
    · rw [update_of_ne heq] at ho
      rw [h.volume id o ho, if_neg (Ne.symm heq), Int.add_zero]
  · rw [hids, mem_append, mem_singleton] at hid
    have hne : order.orderID ≠ id := fun heq => hid (.inr heq.symm)
    rw [h.volume_matchOrder, h.fresh id fun hmem => hid (.inl hmem), if_neg hne]
    rfl
  · rcases mem_append.mp he with he | he
    · exact h.positive e he
    · exact hcall.positive e he
  · have hnodup : (order.orderID :: (bookOrders s.book).map orderID).Nodup :=
      nodup_cons.mpr ⟨h.ok.not_mem_bookIDs hnone, h.distinct⟩
    have hids : ((bookOrders (CexHertz.matchOrder s.book order stamp).book).map
        orderID).Subperm _ := matchOrder_bookIDs (stable_recorded _) h.ok
    obtain ⟨ids, hperm, hsub⟩ := hids
    exact hperm.nodup_iff.mp (hnodup.sublist hsub)

theorem Tracked.cancelOrder (h : Tracked calls s) (orderID : String) :
    Tracked (calls ++ [.cancelOrder orderID]) (s.apply (.cancelOrder orderID)) := by
  have hids : submittedIDs (calls ++ [.cancelOrder orderID]) = submittedIDs calls := by
    rw [submittedIDs_append]
    exact append_nil _
  cases hc : CexHertz.cancelOrder s.book orderID with
  | error e =>
    simp only [apply, hc]
    exact ⟨h.ok, hids ▸ h.known, h.volume, hids ▸ h.fresh, h.positive, h.distinct⟩
  | ok ob =>
    simp only [apply, hc]
    have hspec := cancelOrder_spec h.ok hc
    have hfilter := cancelOrder_filters h.ok hc
    have hrec : ∀ id, ob.orders id ≠ none → id ≠ orderID ∧ ob.orders id = s.book.orders id := by
      intro id hid
      rw [hspec.orders] at hid ⊢
      by_cases heq : id = orderID
      · rw [heq, update_self] at hid
        exact absurd rfl hid
      · exact ⟨heq, update_of_ne heq _ _⟩
    have hvolume : ∀ id ≠ orderID, ∀ cancelled,
        Ledger.volume ⟨ob, s.trades, cancelled⟩ id = s.volume id := by
      intro id hne cancelled
      show s.takerQty id + s.makerQty id + restingQty ob id = s.volume id
      rw [hspec.others id hne]
      rfl
    refine ⟨hspec.ok, fun id hid => ?_, fun id o ho => ?_, fun id hid => ?_, h.positive, ?_⟩
    · rw [hids]
      apply h.known
      rwa [← (hrec id hid).2]
    · have hid := hrec id (by rw [ho]; exact Option.some_ne_none o)
      rw [hvolume id hid.1, h.volume id o (hid.2 ▸ ho)]
    · rw [hids] at hid
      have hne : id ≠ orderID := by
        rintro rfl
        obtain ⟨o, ho, -⟩ := cancelOrder_eq_ok hc
        exact hid (h.known _ (by rw [ho]; exact Option.some_ne_none o))
      rw [hvolume id hne, h.fresh id hid]
    · have hsub : (bookOrders ob).Sublist (bookOrders s.book) := by
        unfold bookOrders
        rw [hfilter.1, hfilter.2]
        exact List.Sublist.append filter_sublist filter_sublist
      exact h.distinct.sublist (hsub.map _)

theorem tracked_run (symbol : String) (hdistinct : (submittedIDs calls).Nodup) :
    Tracked calls (run C symbol calls) := by
  induction calls using List.reverseRecOn with
  | nil => exact tracked_new symbol
  | append_singleton calls call ih =>
    rw [submittedIDs_append, nodup_append] at hdistinct
    have h := ih hdistinct.1
    unfold run at h ⊢
    rw [foldl_append]
    cases call with
    | matchOrder order stamp =>
      refine h.matchOrder fun hmem => ?_
      exact hdistinct.2.2 _ hmem _ mem_cons_self rfl
    | cancelOrder orderID => exact h.cancelOrder orderID

end

/-! ## When the answer can be trusted -/

/-- A cancel answers for what it says: success means an untraded order left the book, an error
means nothing happened. -/
def CancelTells (s : Ledger C) (id : String) : Prop :=
  (∀ ob', cancelOrder s.book id = .ok ob' → CancelMeans s.book s.trades id ob') ∧
    ∀ e, cancelOrder s.book id = .error e → BookCall.apply s.book (.cancelOrder id) = s.book

def RefusedOrWhole (ob : OrderBook C) (id : String) : Prop :=
  ∀ order, ob.orders id = some order →
    0 < order.filledQty ∨ 0 < order.quantity ∧ restingQty ob id = order.quantity

theorem cancelOrder_eq_ok_of_record {ob : OrderBook C} {id : String} {order : OrderBookEntry}
    (horder : ob.orders id = some order) (hfilled : order.filledQty ≤ 0) :
    ∃ ob', cancelOrder ob id = .ok ob' := by
  unfold cancelOrder
  rw [horder]
  dsimp only
  rw [if_neg (not_lt.mpr hfilled)]
  exact ⟨_, rfl⟩

/-- In every run with distinct ids a cancel tells the truth exactly when the record refuses it or
the order's whole quantity still rests. -/
theorem cancel_tells_iff (C : Containers buyBefore sellBefore) [IsStrictTotalOrder Int buyBefore]
    [IsStrictTotalOrder Int sellBefore] (symbol : String) (calls : List BookCall)
    (hdistinct : (submittedIDs calls).Nodup) (id : String) :
    CancelTells (run C symbol calls) id ↔
      RefusedOrWhole (run C symbol calls).book id := by
  have h : Tracked calls (run C symbol calls) := tracked_run symbol hdistinct
  generalize run C symbol calls = s at h ⊢
  constructor
  · rintro ⟨hok, -⟩ order horder
    by_cases hfilled : order.filledQty ≤ 0
    · obtain ⟨ob', hob'⟩ := cancelOrder_eq_ok_of_record horder hfilled
      have hmeans := hok ob' hob'
      have hrests := (exists_entry_iff h.ok h.distinct id).mp hmeans.rests
      have htraded := (h.untraded_iff id).mp hmeans.untraded
      have hvolume := h.volume id order horder
      unfold volume at hvolume
      omega
    · exact .inl (not_le.mp hfilled)
  · intro hwhole
    refine ⟨fun ob' hob' => ?_, fun e he => ?_⟩
    · obtain ⟨order, horder, hfilled, -⟩ := cancelOrder_eq_ok hob'
      obtain ⟨hpos, hrests⟩ : 0 < order.quantity ∧ restingQty s.book id = order.quantity :=
        (hwhole order horder).resolve_left (not_lt.mpr hfilled)
      have hvolume := h.volume id order horder
      unfold volume at hvolume
      have hfilter := cancelOrder_filters h.ok hob'
      exact ⟨(exists_entry_iff h.ok h.distinct id).mpr (by omega),
        (h.untraded_iff id).mpr (by omega), hfilter.1, hfilter.2⟩
    · simp only [BookCall.apply, he, Except.toOption, Option.getD_none]

theorem not_cancelTells_of_traded {s : Ledger C} {id : String}
    (hok : (cancelOrder s.book id).isOk = true)
    (htraded : ∃ e ∈ s.trades, e.takerOrderID = id ∨ e.makerOrderID = id) :
    ¬ CancelTells s id := by
  rintro ⟨hmeans, -⟩
  obtain ⟨e, he, hparty⟩ := htraded
  cases hc : cancelOrder s.book id with
  | error msg =>
    rw [hc] at hok
    cases hok
  | ok ob' =>
    have huntraded := (hmeans ob' hc).untraded e he
    exact hparty.elim huntraded.1 huntraded.2

def askAtRest : List BookCall :=
  [.matchOrder (.limit "a" "u1" "sell" 100 3) noStamp,
   .matchOrder (.limit "b" "u2" "sell" 100 2) noStamp]

theorem askAtRest_cancel_tells : (submittedIDs askAtRest).Nodup ∧
      CancelTells (run sortedContainers "BTC/USDT" askAtRest) "a" := by
  refine ⟨by decide,
    (cancel_tells_iff sortedContainers "BTC/USDT" askAtRest (by decide) "a").mpr ?_⟩
  intro order horder
  have hrecord : (run sortedContainers "BTC/USDT" askAtRest).book.orders "a" =
      some (.limit "a" "u1" "sell" 100 3) := by decide +kernel
  rw [hrecord] at horder
  cases horder
  exact .inr (by decide +kernel)

/-- An ask of 3 of which 2 are bought, by an order that is thereby filled whole. -/
def askTakenInPart : List BookCall :=
  [.matchOrder (.limit "a" "u1" "sell" 100 3) noStamp,
   .matchOrder (.limit "b" "u2" "buy" 100 2) noStamp]

/-- Both orders have been traded and both cancels succeed: the one takes the open rest of its order
off the book, the other has nothing left to take off. -/
theorem cancel_of_traded_order_succeeds : let s := run sortedContainers "BTC/USDT" askTakenInPart
    (submittedIDs askTakenInPart).Nodup ∧
      (s.trades.map fun e => (e.takerOrderID, e.makerOrderID, e.quantity)) = [("b", "a", 2)] ∧
      (cancelOrder s.book "a").isOk = true ∧ (cancelOrder s.book "b").isOk = true ∧
      entriesOf s.book "b" = [] ∧ ¬ CancelTells s "a" ∧ ¬ CancelTells s "b" := by
  refine ⟨by decide, by decide +kernel, by decide +kernel, by decide +kernel, by decide +kernel,
    ?_, ?_⟩
  · exact not_cancelTells_of_traded (by decide +kernel) (by decide +kernel)
  · exact not_cancelTells_of_traded (by decide +kernel) (by decide +kernel)

end CexHertz
