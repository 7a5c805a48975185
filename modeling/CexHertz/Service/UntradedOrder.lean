import CexHertz.Service.Accounting
import CexHertz.Service.PriceTime
import CexHertz.Service.Sequencer

/-!
# An order that never trades

Two runs of one book: with an order that rests for a while and is cancelled, and without it. The
orders of a side differ by a filter on ids; matching takes from the front, so an order that is never
taken is never reached, and the filter commutes with everything the book does.
-/

namespace CexHertz

open Function List

/-! ## A side without some orders -/

section

variable {admits : Int → Bool} {keep : Resting → Bool} {remaining : Int} {l : List Resting}

theorem consume_eq_self (h : remaining ≤ 0 ∨ ∀ r ∈ l, admits r.entry.price = false) :
    consume admits remaining l = ⟨[], remaining, l⟩ := by
  cases l with
  | nil => rfl
  | cons r rest =>
    rw [consume, if_pos (h.imp_right fun hall => hall r mem_cons_self)]

theorem consume_eq_self_of_fills (h : (consume admits remaining l).fills = []) :
    consume admits remaining l = ⟨[], remaining, l⟩ := by
  cases l with
  | nil => rfl
  | cons r rest =>
    rw [consume] at h ⊢
    split at h
    next hstop => rw [if_pos hstop]
    next => cases h

/-- Orders that are not served may be left out: the same fills, the same remainder, and of the
survivors those that are kept.  The list is in an order in which no admitted order stands behind a
refused one. -/
theorem consume_filter (hkeep : ∀ r filledQty,
      keep { r with entry := { r.entry with filledQty := filledQty } } = keep r)
    (hmono : l.Pairwise fun a b => admits b.entry.price = true → admits a.entry.price = true)
    (hserved : ∀ f ∈ (consume admits remaining l).fills, ∀ r ∈ l, r.entry = f.maker →
      keep r = true) :
    consume admits remaining (l.filter keep) = { consume admits remaining l with
        survivors := (consume admits remaining l).survivors.filter keep } := by
  induction l generalizing remaining with
  | nil => rfl
  | cons r rest ih =>
    obtain ⟨hr, hrest⟩ := pairwise_cons.mp hmono
    by_cases hstop : remaining ≤ 0 ∨ admits r.entry.price = false
    · -- nobody is served, and behind a refused order everybody is refused
      have hnone : consume admits remaining (r :: rest) = ⟨[], remaining, r :: rest⟩ := by
        rw [consume, if_pos hstop]
      rw [hnone]
      apply consume_eq_self
      refine hstop.imp_right fun hno x hx => ?_
      rcases mem_cons.mp (mem_of_mem_filter hx) with rfl | hx
      · exact hno
      · cases hadm : admits x.entry.price with
        | false => rfl
        | true => rw [hr x hx hadm] at hno; cases hno
    · -- the first order is served, hence kept
      rw [consume, if_neg hstop] at hserved ⊢
      have hfirst : keep r = true :=
        hserved ⟨r.entry, _⟩ mem_cons_self r mem_cons_self rfl
      rw [filter_cons_of_pos hfirst, consume, if_neg hstop]
      dsimp only at hserved ⊢
      rw [ih hrest fun f hf x hx heq =>
        hserved f (.tail _ hf) x (.tail _ hx) heq]
      split
      · rfl
      · rw [filter_cons_of_pos (by rw [hkeep]; exact hfirst)]

end

section

variable {before : Int → Int → Prop} [DecidableRel before] {α : Type} {price : α → Int}
  {new : α} {l : List α} {keep : α → Bool}

theorem filter_insertBehind_of_dropped (h : keep new = false) :
    (insertBehind before price new l).filter keep = l.filter keep := by
  induction l with
  | nil => rw [insertBehind, filter_cons_of_neg (by simp [h])]
  | cons x rest ih =>
    rw [insertBehind]
    split
    · rw [filter_cons_of_neg (by simp [h])]
    · rw [filter_cons, filter_cons, ih]

/-- Inserting behind equals looks at prices only, so on a sorted list it commutes with leaving
orders out. -/
theorem filter_insertBehind [IsStrictTotalOrder Int before] (h : keep new = true)
    (hsorted : l.Pairwise fun a b => ¬ before (price b) (price a)) :
    (insertBehind before price new l).filter keep =
      insertBehind before price new (l.filter keep) := by
  induction l with
  | nil => rw [insertBehind, filter_cons_of_pos h]; rfl
  | cons x rest ih =>
    obtain ⟨hx, hrest⟩ := pairwise_cons.mp hsorted
    rw [insertBehind]
    split
    next hbefore =>
      rw [filter_cons_of_pos h, insertBehind_of_before]
      -- everything from `x` on comes after the new order
      intro y hy
      rcases mem_cons.mp (mem_of_mem_filter hy) with rfl | hy
      · exact hbefore
      · rcases trichotomous (r := before) (price x) (price y) with hlt | heq | hgt
        · exact IsTrans.trans _ _ _ hbefore hlt
        · rwa [← heq]
        · exact absurd hgt (hx y hy)
    next hbefore =>
      rw [filter_cons, filter_cons, ih hrest]
      split
      · rw [insertBehind, if_neg hbefore]
      · rfl

end

section

variable {before : Int → Int → Prop} [DecidableRel before] [IsStrictTotalOrder Int before]
  {P : OrderBookEntry → Prop}

omit [DecidableRel before] in
theorem LevelsOk.restingOrders_sorted {levels : List (Int × List OrderBookEntry)}
    (hok : LevelsOk P levels) (hasc : Assoc.Ascending before levels) :
    (restingOrders levels).Pairwise fun a b => ¬ before b.price a.price := by
  induction levels with
  | nil => exact List.Pairwise.nil
  | cons level tl ih =>
    obtain ⟨price, queue⟩ := level
    have hprice : ∀ x ∈ queue, x.price = price := fun x hx =>
      ((hok _ mem_cons_self).entries x hx).price_eq
    rw [restingOrders_cons, pairwise_append]
    refine ⟨?_, ih hok.tail (pairwise_cons.mp hasc).2, fun a ha b hb => ?_⟩
    · apply pairwise_of_forall_mem_list
      intro a ha b hb
      rw [hprice a ha, hprice b hb]
      exact irrefl (r := before) _
    · intro hlt
      rw [hprice a ha] at hlt
      have hgt := hok.before_of_tail hasc hb
      exact irrefl (r := before) _ (IsTrans.trans _ _ _ hgt hlt)

variable {L : Levels before} {stops admits : Int → Bool} {symbol takerSide : String}
  {order : OrderBookEntry} {stamp : Nat → Stamp} {keep : String → Bool}

def SideMirrors (L : Levels before) (keep : String → Bool) (levels levels' : L.Carrier) : Prop :=
  restingOrders (L.elements levels') =
    (restingOrders (L.elements levels)).filter fun y => keep y.orderID

theorem SideMirrors.exit (hP : Stable P) (hadmits : ∀ p, admits p = !stops p)
    (hmono : ∀ a b, ¬ before b a → admits b = true → admits a = true) {levels levels' : L.Carrier}
    (hok : LevelsOk P (L.elements levels)) (hok' : LevelsOk P (L.elements levels'))
    (h : SideMirrors L keep levels levels') {out out' : MatchState L}
    (hout : out = (matchLoop L stops symbol takerSide order stamp).exit
      (matchStart L levels order))
    (hout' : out' = (matchLoop L stops symbol takerSide order stamp).exit
      (matchStart L levels' order))
    (hmakers : ∀ e ∈ out.events, keep e.makerOrderID = true) :
    out'.events = out.events ∧ out'.remainingQty = out.remainingQty ∧
      SideMirrors L keep out.levels out'.levels := by
  obtain ⟨l, hl⟩ : ∃ l : List Resting, restingOrders (L.elements levels) = l.map Resting.entry :=
    ⟨(restingOrders (L.elements levels)).map fun e => ⟨0, e⟩, by simp [Function.comp_def]⟩
  let kept : Resting → Bool := fun r => keep r.entry.orderID
  have hl' : restingOrders (L.elements levels') = (l.filter kept).map Resting.entry := by
    rw [h, hl, filter_map]
    rfl
  have hrun := hout ▸ matchLoop_consumedTo hP hadmits _ l hok hl
  have hrun' := hout' ▸ matchLoop_consumedTo hP hadmits _ (l.filter kept) hok' hl'
  have hsorted : l.Pairwise fun a b => admits b.entry.price = true →
      admits a.entry.price = true := by
    have hsorted := hok.restingOrders_sorted (L.ascending levels)
    rw [hl, pairwise_map] at hsorted
    exact hsorted.imp fun hab => hmono _ _ hab
  have hserved : ∀ f ∈ (consume admits order.quantity l).fills, ∀ r ∈ l, r.entry = f.maker →
      kept r = true := by
    intro f hf r _ heq
    obtain ⟨i, hi, rfl⟩ := mem_iff_getElem.mp hf
    have hmem : fillEvent symbol takerSide order stamp i
        (consume admits order.quantity l).fills[i] ∈ out.events := by
      rw [hrun.events_of_start, mem_mapIdx]
      exact ⟨i, hi, rfl⟩
    show keep r.entry.orderID = true
    rw [heq]
    exact hmakers _ hmem
  have hfilter : consume admits order.quantity (l.filter kept) =
      { consume admits order.quantity l with
        survivors := (consume admits order.quantity l).survivors.filter kept } :=
    consume_filter (fun _ _ => rfl) hsorted hserved
  refine ⟨?_, ?_, ?_⟩
  · rw [hrun'.events_of_start, hrun.events_of_start, hfilter]
  · rw [hrun'.remaining, hrun.remaining]
    show (consume admits order.quantity (l.filter kept)).remaining = _
    rw [hfilter]
    rfl
  · show restingOrders _ = List.filter _ (restingOrders _)
    rw [hrun'.levels, hrun.levels, filter_map]
    show (consume admits order.quantity (l.filter kept)).survivors.map _ = _
    rw [hfilter]
    rfl

theorem SideMirrors.appendToLevel {levels levels' : L.Carrier} {qty : Int}
    (hok : LevelsOk P (L.elements levels)) (hok' : LevelsOk P (L.elements levels'))
    (h : SideMirrors L keep levels levels') (hkeep : keep order.orderID = true) :
    SideMirrors L keep (appendToLevel L levels order qty) (appendToLevel L levels' order qty) := by
  unfold SideMirrors at h ⊢
  rw [restingOrders_appendToLevel hok, restingOrders_appendToLevel hok', h]
  refine (filter_insertBehind ?_ (hok.restingOrders_sorted (L.ascending levels))).symm
  exact hkeep

theorem SideMirrors.removeFromLevel {levels levels' : L.Carrier} {price : Int} {orderID : String}
    (hok : LevelsOk P (L.elements levels)) (hok' : LevelsOk P (L.elements levels'))
    (h : SideMirrors L keep levels levels') :
    SideMirrors L keep (removeFromLevel L levels price orderID)
      (removeFromLevel L levels' price orderID) := by
  unfold SideMirrors at h ⊢
  rw [restingOrders_removeFromLevel hok, restingOrders_removeFromLevel hok', h, filter_filter,
    filter_filter]
  exact filter_congr fun x _ => Bool.and_comm _ _

omit [IsStrictTotalOrder Int before] in
theorem SideMirrors.refl (levels : L.Carrier)
    (hkeep : LevelsOk (fun y => P y ∧ keep y.orderID = true) (L.elements levels)) :
    SideMirrors L keep levels levels :=
  (filter_eq_self.mpr fun _ hx => (hkeep.entry hx).holds.2).symm

omit [IsStrictTotalOrder Int before] in
-- A loop that makes no trade leaves the side as it is.
theorem SideMirrors.of_no_events (hP : Stable P) (hadmits : ∀ p, admits p = !stops p)
    {levels levels' : L.Carrier} (hok : LevelsOk P (L.elements levels)) {out : MatchState L}
    (hout : out = (matchLoop L stops symbol takerSide order stamp).exit
      (matchStart L levels order))
    (hnone : out.events = []) (h : SideMirrors L keep levels levels') :
    SideMirrors L keep out.levels levels' := by
  obtain ⟨l, hl⟩ : ∃ l : List Resting, restingOrders (L.elements levels) = l.map Resting.entry :=
    ⟨(restingOrders (L.elements levels)).map fun e => ⟨0, e⟩, by simp [Function.comp_def]⟩
  have hrun := hout ▸ matchLoop_consumedTo hP hadmits _ l hok hl
  have hfills : (consume admits order.quantity l).fills = [] := by
    rw [hrun.events_of_start] at hnone
    exact mapIdx_eq_nil_iff.mp hnone
  have hsame : restingOrders (L.elements out.levels) = restingOrders (L.elements levels) := by
    rw [hrun.levels, hl]
    show (consume admits order.quantity l).survivors.map _ = _
    rw [consume_eq_self_of_fills hfills]
  show restingOrders _ = List.filter _ (restingOrders (L.elements out.levels))
  rwa [hsame]

-- An order that is left out may be appended on one side alone.
theorem SideMirrors.append_dropped {levels levels' : L.Carrier} {qty : Int}
    (hok : LevelsOk P (L.elements levels)) (h : SideMirrors L keep levels levels')
    (hdrop : keep order.orderID = false) :
    SideMirrors L keep (CexHertz.appendToLevel L levels order qty) levels' := by
  unfold SideMirrors at h ⊢
  rw [restingOrders_appendToLevel hok, h]
  refine (filter_insertBehind_of_dropped ?_).symm
  exact hdrop

end

/-! ## A book without some orders -/

section

variable {C : CompareContainers} {keep : String → Bool} {ob ob' : OrderBook C}
  {order : OrderBookEntry} {stamp : Nat → Stamp}

structure Mirrors (keep : String → Bool) (ob ob' : OrderBook C) : Prop where
  symbol : ob'.symbol = ob.symbol
  ok : ob.Ok fun _ => True
  ok' : ob'.Ok fun _ => True
  buys : SideMirrors C.buys keep ob.buys ob'.buys
  sells : SideMirrors C.sells keep ob.sells ob'.sells
  orders : ∀ id, ob'.orders id = if keep id then ob.orders id else none

-- The limit test of a buy against the asks, and of a sell against the bids.
theorem admits_asks (limit p : Int) : decide (p ≤ limit) = !decide (limit < p) := by
  simp only [← decide_not, not_lt]

theorem admits_bids (limit p : Int) : decide (limit ≤ p) = !decide (limit > p) := by
  simp only [gt_iff_lt, ← decide_not, not_lt]

theorem Mirrors.refl (hok : ob.Ok fun y => keep y.orderID = true)
    (hnone : ∀ id, keep id = false → ob.orders id = none) : Mirrors keep ob ob := by
  refine ⟨rfl,
    ⟨hok.buys.imp fun _ _ h => ⟨h.1, trivial⟩, hok.sells.imp fun _ _ h => ⟨h.1, trivial⟩⟩,
    ⟨hok.buys.imp fun _ _ h => ⟨h.1, trivial⟩, hok.sells.imp fun _ _ h => ⟨h.1, trivial⟩⟩,
    .refl ob.buys hok.buys, .refl ob.sells hok.sells, fun id => ?_⟩
  cases hid : keep id with
  | true => rw [if_pos rfl]
  | false => rw [if_neg (by decide), hnone id hid]

section

variable (h : Mirrors keep ob ob')

include h

theorem Mirrors.addOrderToBook (hkeep : keep order.orderID = true)
    {qty : Int} (hqty : 0 < qty) :
    Mirrors keep (addOrderToBook ob order qty) (addOrderToBook ob' order qty) := by
  have hok : (CexHertz.addOrderToBook ob order qty).Ok fun _ => True :=
    h.ok.addOrderToBook stable_true trivial hqty
  have hok' : (CexHertz.addOrderToBook ob' order qty).Ok fun _ => True :=
    h.ok'.addOrderToBook stable_true trivial hqty
  unfold CexHertz.addOrderToBook at hok hok' ⊢
  by_cases hside : order.side = "buy"
  · rw [if_pos hside] at hok hok' ⊢
    rw [if_pos hside]
    exact ⟨h.symbol, hok, hok', h.buys.appendToLevel h.ok.buys h.ok'.buys hkeep, h.sells, h.orders⟩
  · rw [if_neg hside] at hok hok' ⊢
    rw [if_neg hside]
    exact ⟨h.symbol, hok, hok', h.buys, h.sells.appendToLevel h.ok.sells h.ok'.sells hkeep,
      h.orders⟩

-- The order goes on record under a kept id on both sides.
theorem Mirrors.withRecord (hkeep : keep order.orderID = true) :
    Mirrors keep { ob with orders := update ob.orders order.orderID (some order) }
      { ob' with orders := update ob'.orders order.orderID (some order) } := by
  refine ⟨h.symbol, ⟨h.ok.buys, h.ok.sells⟩, ⟨h.ok'.buys, h.ok'.sells⟩, h.buys, h.sells,
    fun id => ?_⟩
  dsimp only
  by_cases heq : id = order.orderID
  · subst heq
    rw [update_self, update_self, if_pos hkeep]
  · rw [update_of_ne heq, update_of_ne heq, h.orders]

theorem Mirrors.record (hkeep : keep order.orderID = true)
    (events : List TradeExecutedEvent) (qty : Int) :
    Mirrors keep (recordOrder ob order events qty).book
      (recordOrder ob' order events qty).book := by
  unfold recordOrder
  by_cases hpos : qty > 0
  · rw [if_pos hpos, if_pos hpos]
    exact (h.addOrderToBook hkeep hpos).withRecord hkeep
  · rw [if_neg hpos, if_neg hpos]
    exact h.withRecord hkeep

/-- One `MatchOrder` call on both books: as long as its makers are kept, the answers are the same
and the books stay alike. -/
theorem Mirrors.matchOrder (hkeep : keep order.orderID = true)
    (hmakers : ∀ e ∈ (matchOrder ob order stamp).events, keep e.makerOrderID = true) :
    (matchOrder ob' order stamp).events = (matchOrder ob order stamp).events ∧
      (matchOrder ob' order stamp).remainingQty = (matchOrder ob order stamp).remainingQty ∧
      Mirrors keep (matchOrder ob order stamp).book (matchOrder ob' order stamp).book := by
  unfold CexHertz.matchOrder at hmakers ⊢
  by_cases hside : order.side = "buy"
  · simp only [if_pos hside] at hmakers ⊢
    have hmono : ∀ a b, ¬ priceComparatorAsc.compareBefore b a →
        decide (b ≤ order.price) = true → decide (a ≤ order.price) = true := by
      intro a b hab hb
      rw [priceComparatorAsc_compareBefore] at hab
      rw [decide_eq_true_eq] at hb ⊢
      omega
    have hloop' : matchBuyOrder ob' order stamp =
        (matchBuyLoop C ob.symbol order stamp).exit (matchStart C.sells ob'.sells order) := by
      rw [← h.symbol]
      rfl
    obtain ⟨hevents, hleft, hsells⟩ := h.sells.exit stable_true.sellSide
      (admits_asks order.price) hmono h.ok.sells h.ok'.sells rfl hloop' hmakers
    rw [hevents, hleft]
    refine ⟨rfl, rfl, Mirrors.record ?_ hkeep _ _⟩
    exact ⟨h.symbol, ⟨h.ok.buys, h.ok.sells.exit stable_true.sellSide⟩,
      ⟨h.ok'.buys, h.ok'.sells.exit stable_true.sellSide⟩, h.buys, hsells, h.orders⟩
  · simp only [if_neg hside] at hmakers ⊢
    have hmono : ∀ a b, ¬ priceComparatorDesc.compareBefore b a →
        decide (order.price ≤ b) = true → decide (order.price ≤ a) = true := by
      intro a b hab hb
      rw [priceComparatorDesc_compareBefore] at hab
      rw [decide_eq_true_eq] at hb ⊢
      omega
    have hloop' : matchSellOrder ob' order stamp =
        (matchSellLoop C ob.symbol order stamp).exit (matchStart C.buys ob'.buys order) := by
      rw [← h.symbol]
      rfl
    obtain ⟨hevents, hleft, hbuys⟩ := h.buys.exit stable_true.buySide
      (admits_bids order.price) hmono h.ok.buys h.ok'.buys rfl hloop' hmakers
    rw [hevents, hleft]
    refine ⟨rfl, rfl, Mirrors.record ?_ hkeep _ _⟩
    exact ⟨h.symbol, ⟨h.ok.buys.exit stable_true.buySide, h.ok.sells⟩,
      ⟨h.ok'.buys.exit stable_true.buySide, h.ok'.sells⟩, hbuys, h.sells, h.orders⟩

theorem Mirrors.record_dropped (hdrop : keep order.orderID = false)
    (events : List TradeExecutedEvent) (qty : Int) :
    Mirrors keep (recordOrder ob order events qty).book ob' := by
  have hok : (recordOrder ob order events qty).book.Ok fun _ => True :=
    h.ok.recordOrder stable_true trivial
  have horders : ∀ id, ob'.orders id =
      if keep id then update ob.orders order.orderID (some order) id else none := by
    intro id
    by_cases heq : id = order.orderID
    · rw [h.orders, heq, hdrop, if_neg (by decide), if_neg (by decide)]
    · rw [update_of_ne heq, h.orders]
  unfold recordOrder at hok ⊢
  by_cases hpos : qty > 0
  · rw [if_pos hpos] at hok ⊢
    unfold CexHertz.addOrderToBook at hok ⊢
    by_cases hside : order.side = "buy"
    · rw [if_pos hside] at hok ⊢
      exact ⟨h.symbol, hok, h.ok', h.buys.append_dropped h.ok.buys hdrop, h.sells, horders⟩
    · rw [if_neg hside] at hok ⊢
      exact ⟨h.symbol, hok, h.ok', h.buys, h.sells.append_dropped h.ok.sells hdrop, horders⟩
  · rw [if_neg hpos] at hok ⊢
    exact ⟨h.symbol, hok, h.ok', h.buys, h.sells, horders⟩

theorem Mirrors.submit (hdrop : keep order.orderID = false)
    (hnone : (CexHertz.matchOrder ob order stamp).events = []) :
    Mirrors keep (CexHertz.matchOrder ob order stamp).book ob' := by
  unfold CexHertz.matchOrder at hnone ⊢
  by_cases hside : order.side = "buy"
  · rw [if_pos hside] at hnone ⊢
    apply Mirrors.record_dropped _ hdrop
    exact ⟨h.symbol, ⟨h.ok.buys, h.ok.sells.exit stable_true.sellSide⟩, h.ok', h.buys,
      h.sells.of_no_events stable_true.sellSide (admits_asks order.price) h.ok.sells rfl hnone,
      h.orders⟩
  · rw [if_neg hside] at hnone ⊢
    apply Mirrors.record_dropped _ hdrop
    exact ⟨h.symbol, ⟨h.ok.buys.exit stable_true.buySide, h.ok.sells⟩, h.ok',
      h.buys.of_no_events stable_true.buySide (admits_bids order.price) h.ok.buys rfl hnone,
      h.sells, h.orders⟩

theorem Mirrors.cancelOrder {id : String} (hkeep : keep id = true) :
    (∃ e, cancelOrder ob id = .error e ∧ cancelOrder ob' id = .error e) ∨
      ∃ next next', cancelOrder ob id = .ok next ∧ cancelOrder ob' id = .ok next' ∧
        Mirrors keep next next' := by
  have hsame : ob'.orders id = ob.orders id := by rw [h.orders, if_pos hkeep]
  have horders : ∀ id', update ob'.orders id none id' =
      if keep id' then update ob.orders id none id' else none := by
    intro id'
    by_cases heq : id' = id
    · rw [heq, update_self, update_self, ite_self]
    · rw [update_of_ne heq, update_of_ne heq, h.orders]
  unfold CexHertz.cancelOrder
  rw [hsame]
  cases ho : ob.orders id with
  | none => exact .inl ⟨_, rfl, rfl⟩
  | some order =>
    dsimp only
    by_cases hfilled : order.filledQty > 0
    · rw [if_pos hfilled, if_pos hfilled]
      exact .inl ⟨_, rfl, rfl⟩
    · rw [if_neg hfilled, if_neg hfilled]
      refine .inr ⟨_, _, rfl, rfl, ?_⟩
      by_cases hside : order.side = "buy"
      · rw [if_pos hside, if_pos hside]
        exact ⟨h.symbol, ⟨h.ok.buys.removeFromLevel, h.ok.sells⟩,
          ⟨h.ok'.buys.removeFromLevel, h.ok'.sells⟩,
          h.buys.removeFromLevel h.ok.buys h.ok'.buys, h.sells, horders⟩
      · rw [if_neg hside, if_neg hside]
        exact ⟨h.symbol, ⟨h.ok.buys, h.ok.sells.removeFromLevel⟩,
          ⟨h.ok'.buys, h.ok'.sells.removeFromLevel⟩, h.buys,
          h.sells.removeFromLevel h.ok.sells h.ok'.sells, horders⟩

end

def RestsAs (x y : OrderBookEntry) : Prop :=
  y.orderID = x.orderID → y.price = x.price ∧ y.side = x.side

theorem stable_restsAs (x : OrderBookEntry) : Stable (RestsAs x) := fun _ _ _ h => h

section

variable {before : Int → Int → Prop} [DecidableRel before] {L : Levels before}
  {P : OrderBookEntry → Prop} {x : OrderBookEntry} {levels levels' : L.Carrier}

-- On the order's own side the cancel filters out what the other book never had.
theorem SideMirrors.cancel_dropped [IsStrictTotalOrder Int before]
    (hok : LevelsOk (fun y => P y ∧ RestsAs x y) (L.elements levels))
    (h : SideMirrors L (fun id => id ≠ x.orderID) levels levels') :
    SideMirrors L (fun _ => true) (CexHertz.removeFromLevel L levels x.price x.orderID)
      levels' := by
  unfold SideMirrors at h ⊢
  rw [restingOrders_removeFromLevel hok, h, filter_true]
  apply filter_congr
  intro y hy
  by_cases heq : y.orderID = x.orderID
  · have hprice := ((hok.entry hy).holds.2 heq).1
    simp [cancels, heq, hprice]
  · simp [cancels, heq]

-- On the other side there is nothing to leave out.
theorem SideMirrors.other_side (hok : LevelsOk (fun y => P y ∧ RestsAs x y) (L.elements levels))
    (hside : ∀ y, P y → y.side ≠ x.side)
    (h : SideMirrors L (fun id => id ≠ x.orderID) levels levels') :
    SideMirrors L (fun _ => true) levels levels' := by
  unfold SideMirrors at h ⊢
  rw [h]
  apply filter_congr
  intro y hy
  apply decide_eq_true
  intro heq
  have hy' := (hok.entry hy).holds
  exact hside y hy'.1 (hy'.2 heq).2

end

theorem Mirrors.cancel_dropped {x : OrderBookEntry}
    (h : Mirrors (fun id => id ≠ x.orderID) ob ob') (hok : ob.Ok (RestsAs x))
    (hrecord : ob.orders x.orderID = some x) (hfilled : x.filledQty ≤ 0) :
    ∃ next, CexHertz.cancelOrder ob x.orderID = .ok next ∧ Mirrors (fun _ => true) next ob' := by
  have horders : ∀ id, ob'.orders id =
      if true = true then update ob.orders x.orderID none id else none := by
    intro id
    rw [if_pos rfl, h.orders]
    by_cases heq : id = x.orderID
    · rw [heq, update_self, if_neg (by simp)]
    · rw [update_of_ne heq, if_pos (decide_eq_true heq)]
  unfold CexHertz.cancelOrder
  rw [hrecord]
  dsimp only
  rw [if_neg (not_lt.mpr hfilled)]
  refine ⟨_, rfl, ?_⟩
  by_cases hside : x.side = "buy"
  · rw [if_pos hside]
    exact ⟨h.symbol, ⟨h.ok.buys.removeFromLevel, h.ok.sells⟩, h.ok',
      h.buys.cancel_dropped hok.buys, h.sells.other_side hok.sells fun y hy => hside ▸ hy, horders⟩
  · rw [if_neg hside]
    exact ⟨h.symbol, ⟨h.ok.buys, h.ok.sells.removeFromLevel⟩, h.ok',
      h.buys.other_side hok.buys fun y hy heq => hside (heq ▸ hy),
      h.sells.cancel_dropped hok.sells, horders⟩

structure EqualBooks (ob ob' : OrderBook C) : Prop where
  symbol : ob'.symbol = ob.symbol
  buys : C.buys.elements ob'.buys = C.buys.elements ob.buys
  sells : C.sells.elements ob'.sells = C.sells.elements ob.sells
  orders : ob'.orders = ob.orders

-- The levels are recovered from the lists, so with nothing left out they are equal.
theorem Mirrors.equalBooks (h : Mirrors (fun _ => true) ob ob') : EqualBooks ob ob' := by
  refine ⟨h.symbol, ?_, ?_, funext fun id => h.orders id⟩
  · rw [← h.ok'.buys.levelsOf_restingOrders (C.buys.ascending _), h.buys, filter_true,
      h.ok.buys.levelsOf_restingOrders (C.buys.ascending _)]
  · rw [← h.ok'.sells.levelsOf_restingOrders (C.sells.ascending _), h.sells, filter_true,
      h.ok.sells.levelsOf_restingOrders (C.sells.ascending _)]

end

/-! ## Sessions -/

def Sequencer.after (s : Sequencer) : Nat → Sequencer
  | 0 => s
  | n + 1 => s.nextGlobalSeq.2.after n

/-- What happens to a book and its sequencer, one call after the other.  `clock` is what the trades
of a call read from the clock; other components draw from the same sequencer. -/
inductive SessionCall where
  | matchOrder (order : OrderBookEntry) (clock : Nat → Int)
  | cancelOrder (orderID : String)
  | nextGlobalSeq

inductive SessionAnswer where
  | matched (events : List TradeExecutedEvent) (remainingQty : Int)
  | cancelled (error : Option String)
  | drawn (seq : Nat)
  deriving DecidableEq

open SessionAnswer

def SessionAnswer.trades : SessionAnswer → List TradeExecutedEvent
  | .matched events _ => events
  | .cancelled _ => []
  | .drawn _ => []

section

variable {buyBefore sellBefore : Int → Int → Prop} [DecidableRel buyBefore]
  [DecidableRel sellBefore]

structure Session (C : Containers buyBefore sellBefore) where
  book : OrderBook C
  sequencer : Sequencer

namespace Session

variable {C : Containers buyBefore sellBefore}

/-- The `i`-th trade of the next call draws the `i`-th number and reads the clock. -/
def stamp (s : Session C) (clock : Nat → Int) (i : Nat) : Stamp :=
  ⟨(s.sequencer.after i).nextGlobalSeq.1, clock i⟩

def call (s : Session C) : SessionCall → SessionAnswer × Session C
  | .matchOrder order clock =>
    let result := CexHertz.matchOrder s.book order (s.stamp clock)
    (.matched result.events result.remainingQty,
      ⟨result.book, s.sequencer.after result.events.length⟩)
  | .cancelOrder orderID =>
    match CexHertz.cancelOrder s.book orderID with
    | .error e => (.cancelled (some e), s)
    | .ok ob => (.cancelled none, { s with book := ob })
  | .nextGlobalSeq =>
    let next := s.sequencer.nextGlobalSeq
    (.drawn next.1, { s with sequencer := next.2 })

theorem call_cancel_error {s : Session C} {orderID e : String}
    (h : CexHertz.cancelOrder s.book orderID = .error e) :
    s.call (.cancelOrder orderID) = (.cancelled (some e), s) := by
  simp only [call, h]

theorem call_cancel_ok {s : Session C} {orderID : String} {ob : OrderBook C}
    (h : CexHertz.cancelOrder s.book orderID = .ok ob) :
    s.call (.cancelOrder orderID) = (.cancelled none, { s with book := ob }) := by
  simp only [call, h]

def run (s : Session C) : List SessionCall → List SessionAnswer × Session C
  | [] => ([], s)
  | c :: rest =>
    let rest := (s.call c).2.run rest
    ((s.call c).1 :: rest.1, rest.2)

theorem run_cons (s : Session C) (c : SessionCall) (rest : List SessionCall) :
    s.run (c :: rest) = ((s.call c).1 :: ((s.call c).2.run rest).1, ((s.call c).2.run rest).2) :=
  rfl

theorem run_append (s : Session C) (calls rest : List SessionCall) : s.run (calls ++ rest) =
      ((s.run calls).1 ++ ((s.run calls).2.run rest).1, ((s.run calls).2.run rest).2) := by
  induction calls generalizing s with
  | nil => rfl
  | cons c calls ih => rw [cons_append, run_cons, run_cons, ih, cons_append]

theorem length_run (s : Session C) (calls : List SessionCall) :
    (s.run calls).1.length = calls.length := by
  induction calls generalizing s with
  | nil => rfl
  | cons c calls ih => rw [run_cons, length_cons, ih, length_cons]

end Session

def newSession (C : Containers buyBefore sellBefore) (symbol : String) (sequencer : Sequencer) :
    Session C :=
  ⟨newOrderBook C symbol, sequencer⟩

/-! ### What a call keeps -/

def SessionCall.Names (p : String → Prop) : SessionCall → Prop
  | .matchOrder order _ => p order.orderID
  | .cancelOrder orderID => p orderID
  | .nextGlobalSeq => True

def SessionCall.Submits (p : String → Prop) : SessionCall → Prop
  | .matchOrder order _ => p order.orderID
  | .cancelOrder _ => True
  | .nextGlobalSeq => True

theorem SessionCall.Names.imp {p q : String → Prop} {c : SessionCall} (h : c.Names p)
    (himp : ∀ id, p id → q id) : c.Names q := by
  cases c with
  | matchOrder | cancelOrder => exact himp _ h
  | nextGlobalSeq => trivial

variable {C : Containers buyBefore sellBefore} {s : Session C} {calls : List SessionCall}
  {c : SessionCall} {id : String}

-- The book of a session changes as `BookCall.apply` says.
theorem Session.call_cancelOrder_book (s : Session C) (orderID : String) :
    (s.call (.cancelOrder orderID)).2.book = BookCall.apply s.book (.cancelOrder orderID) := by
  cases hc : CexHertz.cancelOrder s.book orderID with
  | error e =>
    rw [Session.call_cancel_error hc]
    simp only [BookCall.apply, hc, Except.toOption, Option.getD_none]
  | ok ob =>
    rw [Session.call_cancel_ok hc]
    simp only [BookCall.apply, hc, Except.toOption, Option.getD_some]

theorem OrderBook.Ok.call {P : OrderBookEntry → Prop} (hP : Stable P) (hok : s.book.Ok P)
    (hcall : ∀ order clock, c = .matchOrder order clock → P order) : (s.call c).2.book.Ok P := by
  cases c with
  | matchOrder order clock => exact hok.matchOrder hP (hcall order clock rfl)
  | cancelOrder orderID =>
    rw [Session.call_cancelOrder_book]
    exact hok.apply hP (.cancelOrder orderID) fun _ _ h => by cases h
  | nextGlobalSeq => exact hok

theorem OrderBook.Ok.run {P : OrderBookEntry → Prop} (hP : Stable P) (hok : s.book.Ok P)
    (hcalls : ∀ order clock, .matchOrder order clock ∈ calls → P order) :
    (s.run calls).2.book.Ok P := by
  induction calls generalizing s with
  | nil => exact hok
  | cons c calls ih =>
    rw [Session.run_cons]
    refine ih (hok.call hP ?_) fun order clock h => hcalls order clock (.tail _ h)
    intro order clock heq
    exact hcalls order clock (heq ▸ mem_cons_self)

theorem Session.orders_call_cancel (s : Session C) (orderID : String) (hne : orderID ≠ id) :
    (s.call (.cancelOrder orderID)).2.book.orders id = s.book.orders id := by
  cases hc : CexHertz.cancelOrder s.book orderID with
  | error e => rw [Session.call_cancel_error hc]
  | ok ob =>
    rw [Session.call_cancel_ok hc]
    obtain ⟨order, -, -, ⟨-, rfl⟩ | ⟨-, rfl⟩⟩ := cancelOrder_eq_ok hc
    · exact update_of_ne (Ne.symm hne) _ _
    · exact update_of_ne (Ne.symm hne) _ _

theorem Session.orders_call (hne : c.Names (· ≠ id)) :
    (s.call c).2.book.orders id = s.book.orders id := by
  cases c with
  | matchOrder order clock =>
    show (CexHertz.matchOrder s.book order (s.stamp clock)).book.orders id = _
    rw [matchOrder_orders]
    exact update_of_ne (Ne.symm hne) _ _
  | cancelOrder orderID => exact s.orders_call_cancel orderID hne
  | nextGlobalSeq => rfl

theorem Session.orders_run (hne : ∀ c ∈ calls, c.Names (· ≠ id)) :
    (s.run calls).2.book.orders id = s.book.orders id := by
  induction calls generalizing s with
  | nil => rfl
  | cons c calls ih =>
    rw [Session.run_cons]
    exact (ih fun c hc => hne c (.tail _ hc)).trans
      (Session.orders_call (hne c mem_cons_self))

-- Cancels of an id that was never submitted are refused.
theorem Session.orders_run_none (hnone : s.book.orders id = none)
    (hne : ∀ c ∈ calls, c.Submits (· ≠ id)) : (s.run calls).2.book.orders id = none := by
  induction calls generalizing s with
  | nil => exact hnone
  | cons c calls ih =>
    rw [Session.run_cons]
    refine ih ?_ fun c hc => hne c (.tail _ hc)
    have hc := hne c mem_cons_self
    cases c with
    | matchOrder order clock =>
      have hnames : (SessionCall.matchOrder order clock).Names (· ≠ id) := hc
      exact (Session.orders_call hnames).trans hnone
    | cancelOrder orderID =>
      by_cases heq : orderID = id
      · have hrefused : CexHertz.cancelOrder s.book orderID =
            .error ("order not found: " ++ orderID) := by
          unfold CexHertz.cancelOrder
          rw [heq, hnone]
        rwa [Session.call_cancel_error hrefused]
      · exact (s.orders_call_cancel orderID heq).trans hnone
    | nextGlobalSeq => exact hnone

end

open Session

/-! ### Two sessions -/

section

variable {C : CompareContainers} {keep : String → Bool} {s s' : Session C} {c : SessionCall}
  {calls : List SessionCall}

structure SessionMirrors (keep : String → Bool) (s s' : Session C) : Prop where
  book : Mirrors keep s.book s'.book
  sequencer : s'.sequencer = s.sequencer

theorem SessionMirrors.call (h : SessionMirrors keep s s') (hnames : c.Names (keep · = true))
    (hmakers : ∀ e ∈ (s.call c).1.trades, keep e.makerOrderID = true) :
    (s'.call c).1 = (s.call c).1 ∧ SessionMirrors keep (s.call c).2 (s'.call c).2 := by
  cases c with
  | matchOrder order clock =>
    have hstamp : s'.stamp clock = s.stamp clock := by
      unfold stamp
      rw [h.sequencer]
    obtain ⟨hevents, hleft, hbook⟩ := h.book.matchOrder hnames hmakers
    show (matched (CexHertz.matchOrder s'.book order (s'.stamp clock)).events
        (CexHertz.matchOrder s'.book order (s'.stamp clock)).remainingQty) = _ ∧
      SessionMirrors keep _ ⟨(CexHertz.matchOrder s'.book order (s'.stamp clock)).book,
        s'.sequencer.after (CexHertz.matchOrder s'.book order (s'.stamp clock)).events.length⟩
    rw [hstamp, hevents, hleft, h.sequencer]
    exact ⟨rfl, hbook, rfl⟩
  | cancelOrder orderID =>
    rcases h.book.cancelOrder hnames with ⟨e, he, he'⟩ | ⟨next, next', hn, hn', hnext⟩
    · rw [call_cancel_error he, call_cancel_error he']
      exact ⟨rfl, h⟩
    · rw [call_cancel_ok hn, call_cancel_ok hn']
      exact ⟨rfl, hnext, h.sequencer⟩
  | nextGlobalSeq =>
    show drawn s'.sequencer.nextGlobalSeq.1 = _ ∧
      SessionMirrors keep _ ⟨s'.book, s'.sequencer.nextGlobalSeq.2⟩
    rw [h.sequencer]
    exact ⟨rfl, h.book, rfl⟩

theorem SessionMirrors.run (h : SessionMirrors keep s s')
    (hnames : ∀ c ∈ calls, c.Names (keep · = true))
    (hmakers : ∀ e ∈ (s.run calls).1.flatMap trades, keep e.makerOrderID = true) :
    (s'.run calls).1 = (s.run calls).1 ∧ SessionMirrors keep (s.run calls).2 (s'.run calls).2 := by
  induction calls generalizing s s' with
  | nil => exact ⟨rfl, h⟩
  | cons c calls ih =>
    rw [run_cons, flatMap_cons] at hmakers
    obtain ⟨hfirst, hnext⟩ := h.call (hnames c mem_cons_self)
      fun e he => hmakers e (mem_append_left _ he)
    obtain ⟨hrest, hlast⟩ := ih hnext (fun c hc => hnames c (.tail _ hc))
      fun e he => hmakers e (mem_append_right _ he)
    rw [run_cons, run_cons, hfirst, hrest]
    exact ⟨rfl, hlast⟩

end

/-! ## The order and its cancel -/

section

variable {C : CompareContainers} {s s' : Session C} {x : OrderBookEntry} {clock : Nat → Int}

-- Every trade of a submission has the submitted order as its taker.
theorem submission_without_trades {P : OrderBookEntry → Prop} (hP : Stable P) (hok : s.book.Ok P)
    (huntraded : ∀ e ∈ (s.call (.matchOrder x clock)).1.trades, e.takerOrderID ≠ x.orderID) :
    (matchOrder s.book x (s.stamp clock)).events = [] ∧
      (matchOrder s.book x (s.stamp clock)).remainingQty = x.quantity := by
  have hcall : CallConserves s.book x (matchOrder s.book x (s.stamp clock)) :=
    matchOrder_conserves hP hok
  have hnil : (matchOrder s.book x (s.stamp clock)).events = [] := by
    rw [eq_nil_iff_forall_not_mem]
    intro e he
    exact huntraded e he (hcall.takerID e he)
  have htaker := hcall.taker
  rw [hnil] at htaker
  exact ⟨hnil, (htaker.trans (Int.add_zero _)).symm⟩

theorem sessionMirrors_submit (hok : s.book.Ok fun y => y.orderID ≠ x.orderID)
    (hnone : s.book.orders x.orderID = none)
    (huntraded : ∀ e ∈ (s.call (.matchOrder x clock)).1.trades, e.takerOrderID ≠ x.orderID) :
    (s.call (.matchOrder x clock)).1 = .matched [] x.quantity ∧
      SessionMirrors (fun id => id ≠ x.orderID) (s.call (.matchOrder x clock)).2 s := by
  obtain ⟨hevents, hleft⟩ := submission_without_trades (fun _ _ _ h => h) hok huntraded
  have hbook : Mirrors (fun id => id ≠ x.orderID) s.book s.book := by
    apply Mirrors.refl
    · exact ⟨hok.buys.imp fun _ _ h => ⟨h.1, decide_eq_true h.2⟩,
        hok.sells.imp fun _ _ h => ⟨h.1, decide_eq_true h.2⟩⟩
    · intro id hid
      rwa [not_not.mp (of_decide_eq_false hid)]
  refine ⟨?_, hbook.submit (by simp) hevents, ?_⟩
  · show matched (matchOrder s.book x (s.stamp clock)).events
      (matchOrder s.book x (s.stamp clock)).remainingQty = _
    rw [hevents, hleft]
  · show s.sequencer = s.sequencer.after (matchOrder s.book x (s.stamp clock)).events.length
    rw [hevents]
    rfl

theorem sessionMirrors_rest {mid : List SessionCall}
    (hok : s.book.Ok fun y => y.orderID ≠ x.orderID) (hnone : s.book.orders x.orderID = none)
    (hnames : ∀ c ∈ mid, c.Names (· ≠ x.orderID))
    (hsubmit : ∀ e ∈ (s.call (.matchOrder x clock)).1.trades, e.takerOrderID ≠ x.orderID)
    (hmid : ∀ e ∈ ((s.call (.matchOrder x clock)).2.run mid).1.flatMap trades,
      e.makerOrderID ≠ x.orderID) :
    (s.run mid).1 = ((s.call (.matchOrder x clock)).2.run mid).1 ∧
      SessionMirrors (fun id => id ≠ x.orderID) ((s.call (.matchOrder x clock)).2.run mid).2
        (s.run mid).2 ∧
      ((s.call (.matchOrder x clock)).2.run mid).2.book.Ok (RestsAs x) ∧
      ((s.call (.matchOrder x clock)).2.run mid).2.book.orders x.orderID = some x := by
  obtain ⟨-, h⟩ := sessionMirrors_submit hok hnone hsubmit
  obtain ⟨hanswers, hrest⟩ := h.run
    (fun c hc => (hnames c hc).imp fun _ hne => decide_eq_true hne)
    fun e he => decide_eq_true (hmid e he)
  refine ⟨hanswers, hrest, ?_, ?_⟩
  · have hbefore : s.book.Ok (RestsAs x) :=
      ⟨hok.buys.imp fun _ _ h => ⟨h.1, fun heq => absurd heq h.2⟩,
        hok.sells.imp fun _ _ h => ⟨h.1, fun heq => absurd heq h.2⟩⟩
    have hsubmitted : (s.call (.matchOrder x clock)).2.book.Ok (RestsAs x) :=
      hbefore.matchOrder (stable_restsAs x) fun _ => ⟨rfl, rfl⟩
    apply hsubmitted.run (stable_restsAs x)
    intro order clock hmem heq
    exact absurd heq (hnames _ hmem)
  · rw [orders_run hnames]
    show (matchOrder s.book x (s.stamp clock)).book.orders x.orderID = some x
    rw [matchOrder_orders]
    exact update_self _ _ _

theorem SessionMirrors.cancel (h : SessionMirrors (fun id => id ≠ x.orderID) s s')
    (hok : s.book.Ok (RestsAs x)) (hrecord : s.book.orders x.orderID = some x)
    (hfilled : x.filledQty ≤ 0) :
    (s.call (.cancelOrder x.orderID)).1 = .cancelled none ∧
      SessionMirrors (fun _ => true) (s.call (.cancelOrder x.orderID)).2 s' := by
  obtain ⟨next, hnext, hsame⟩ := h.book.cancel_dropped hok hrecord hfilled
  rw [call_cancel_ok hnext]
  exact ⟨rfl, hsame, h.sequencer⟩

theorem SessionCall.names_of_submits {c : SessionCall} {id : String} (h : c.Submits (· ≠ id))
    (hcancel : c ≠ .cancelOrder id) : c.Names (· ≠ id) := by
  cases c with
  | matchOrder order clock => exact h
  | cancelOrder orderID => exact fun heq => hcancel (heq ▸ rfl)
  | nextGlobalSeq => trivial

/-- A new order that takes part in no trade can be cancelled, and but for the answers to its own two
calls the session is the one without it: the same trades with the same numbers, the same
remainders, the same book. -/
theorem untraded_order_leaves_no_trace (C : CompareContainers) (symbol : String)
    (sequencer : Sequencer) (pre mid post : List SessionCall) (x : OrderBookEntry)
    (clock : Nat → Int) (hids : ∀ c ∈ pre ++ (mid ++ post), c.Submits (· ≠ x.orderID))
    (hfirst : .cancelOrder x.orderID ∉ mid) (hnew : x.filledQty ≤ 0)
    (huntraded : ∀ e ∈ ((newSession C symbol sequencer).run
        (pre ++ .matchOrder x clock :: (mid ++ .cancelOrder x.orderID :: post))).1.flatMap
          trades, e.takerOrderID ≠ x.orderID ∧ e.makerOrderID ≠ x.orderID) :
    let withOrder := (newSession C symbol sequencer).run
      (pre ++ .matchOrder x clock :: (mid ++ .cancelOrder x.orderID :: post))
    let without := (newSession C symbol sequencer).run (pre ++ (mid ++ post))
    (∃ before between behind : List SessionAnswer, before.length = pre.length ∧
      between.length = mid.length ∧ behind.length = post.length ∧
      withOrder.1 = before ++ .matched [] x.quantity :: (between ++ .cancelled none :: behind) ∧
      without.1 = before ++ (between ++ behind)) ∧
    without.1.flatMap trades = withOrder.1.flatMap trades ∧
    without.2.sequencer = withOrder.2.sequencer ∧ EqualBooks withOrder.2.book without.2.book := by
  intro withOrder without
  have hsubmits : ∀ calls : List SessionCall, (∀ c ∈ calls, c ∈ pre ++ (mid ++ post)) →
      ∀ order clock, .matchOrder order clock ∈ calls → order.orderID ≠ x.orderID :=
    fun calls hsub order clock hmem => hids _ (hsub _ hmem)
  -- the session before the submission
  let s₁ := ((newSession C symbol sequencer).run pre).2
  have hok₁ : s₁.book.Ok fun y => y.orderID ≠ x.orderID :=
    (newOrderBook_ok symbol).run (fun _ _ _ h => h) (hsubmits pre fun c hc => by simp [hc])
  have hnone : s₁.book.orders x.orderID = none :=
    orders_run_none rfl fun c hc => hids c (by simp [hc])
  -- the sessions after the submission, before the cancel, and after it
  let s₂ := (s₁.call (.matchOrder x clock)).2
  let s₃ := (s₂.run mid).2
  let s₄ := (s₃.call (.cancelOrder x.orderID)).2
  have hwith : withOrder = (((newSession C symbol sequencer).run pre).1 ++
      (s₁.call (.matchOrder x clock)).1 :: ((s₂.run mid).1 ++
        (s₃.call (.cancelOrder x.orderID)).1 :: (s₄.run post).1), (s₄.run post).2) := by
    simp only [withOrder, run_append, run_cons]
    rfl
  have hwithout : without = (((newSession C symbol sequencer).run pre).1 ++
      ((s₁.run mid).1 ++ ((s₁.run mid).2.run post).1), ((s₁.run mid).2.run post).2) := by
    simp only [without, run_append]
    rfl
  change ∀ e ∈ withOrder.1.flatMap trades, _ at huntraded
  rw [hwith] at huntraded
  simp only [flatMap_append, flatMap_cons, forall_mem_append] at huntraded
  obtain ⟨-, hsubmit, hmid, -, -⟩ := huntraded
  have hanswer := (sessionMirrors_submit hok₁ hnone fun e he => (hsubmit e he).1).1
  have hnames : ∀ c ∈ mid, c.Names (· ≠ x.orderID) := fun c hc =>
    SessionCall.names_of_submits (hids c (by simp [hc])) fun heq => hfirst (heq ▸ hc)
  obtain ⟨hmidAnswers, h₃, hokx, hrecord⟩ := sessionMirrors_rest hok₁ hnone hnames
    (fun e he => (hsubmit e he).1) fun e he => (hmid e he).2
  obtain ⟨hcancel, h₄⟩ := h₃.cancel hokx hrecord hnew
  -- after the cancel nothing is left out, so the rest of the calls may name any id
  have hany : ∀ c ∈ post, c.Names (fun _ => true = true) := by
    intro c _
    cases c <;> trivial
  obtain ⟨hpost, hlast⟩ := h₄.run hany fun _ _ => rfl
  rw [hwith, hwithout, hanswer, hcancel, hmidAnswers, hpost]
  refine ⟨⟨_, _, _, length_run _ _, length_run _ _, length_run _ _, rfl,
    rfl⟩, ?_, hlast.sequencer, hlast.book.equalBooks⟩
  simp only [flatMap_append, flatMap_cons]
  rfl

end

abbrev bestFirst : CompareContainers := Containers.sorted _ _

/-- An ask at 100 rests behind one at 99, which is bought while it rests. -/
theorem ask_behind_leaves_no_trace : let x := OrderBookEntry.limit "a" "u1" "sell" 100 3
    let ask := SessionCall.matchOrder (.limit "b" "u2" "sell" 99 2) fun _ => 0
    let bid := SessionCall.matchOrder (.limit "c" "u3" "buy" 100 2) fun _ => 0
    let withOrder := (newSession bestFirst "BTC/USDT" newSequencer).run
      ([ask] ++ .matchOrder x (fun _ => 0) :: ([.nextGlobalSeq, bid] ++ .cancelOrder "a" :: [bid]))
    let without := (newSession bestFirst "BTC/USDT" newSequencer).run
      ([ask] ++ ([.nextGlobalSeq, bid] ++ [bid]))
    without.1.flatMap trades = withOrder.1.flatMap trades ∧
      EqualBooks withOrder.2.book without.2.book := by
  intro x ask bid withOrder without
  have h := untraded_order_leaves_no_trace bestFirst "BTC/USDT" newSequencer [ask]
    [.nextGlobalSeq, bid] [bid] x (fun _ => 0)
    (by
      intro c hc
      simp only [cons_append, nil_append, mem_cons, not_mem_nil, or_false] at hc
      rcases hc with rfl | rfl | rfl | rfl
      · show "b" ≠ "a"
        decide
      · trivial
      · show "c" ≠ "a"
        decide
      · show "c" ≠ "a"
        decide)
    (by simp [bid]) (by decide) (by decide +kernel)
  exact ⟨h.2.1, h.2.2.2⟩

/-- An order whose entry already says it was filled takes part in no trade, and its cancel is
refused: it stays in the book. -/
theorem filled_entry_not_cancelled :
    let x := { OrderBookEntry.limit "a" "u1" "sell" 100 3 with filledQty := 1 }
    let withOrder := (newSession bestFirst "BTC/USDT" newSequencer).run
      [.matchOrder x (fun _ => 0), .cancelOrder "a"]
    withOrder.1 = [.matched [] 3, .cancelled (some "cannot cancel partially filled order: a")] ∧
      ¬ EqualBooks withOrder.2.book (newSession bestFirst "BTC/USDT" newSequencer).book := by
  intro x withOrder
  refine ⟨by decide +kernel, fun h => ?_⟩
  have hrest : restingOrders (bestFirst.sells.elements withOrder.2.book.sells) ≠
      restingOrders (bestFirst.sells.elements bestFirst.sells.new) := by decide +kernel
  exact hrest (congrArg restingOrders h.sells).symm

end CexHertz
